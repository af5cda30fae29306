import Sequencer.Stage

/-!
# Acts and plays

An act changes the stage, and may halt half-way; what it changed before it halted stays changed.
A play is an act that also has the progress of one step in its hands. Plays on a part of some
progress lift to plays on the whole, and acts lift to plays.
-/

set_option autoImplicit false

namespace Sequencer

inductive Halt where
  | panic (message : String)
  /-- Callbacks called callbacks too many times over. -/
  | tooDeep
  deriving DecidableEq, Repr

abbrev Act (α : Type) := ExceptT Halt (StateM Stage) α

abbrev Play (π α : Type) := ExceptT Halt (StateM (π × Stage)) α

abbrev Runner := Command → Act Reply

namespace Act

def read {α : Type} (f : Stage → α) : Act α := fun s => (.ok (f s), s)

def change (f : Stage → Stage) : Act Unit := fun s => (.ok (), f s)

def halt {α : Type} (h : Halt) : Act α := fun s => (.error h, s)

def note (e : Entry) : Act Unit := change (Stage.note e)

def say (n : Notice) : Act Unit := note (.notice n)

def inScene {α : Type} (f : Scene → α × Scene) : Act α := fun s =>
  let r := s.inScene f
  (.ok r.1, r.2)

end Act

namespace Play

variable {π σ α : Type}

def read : Play π π := fun s => (.ok s.1, s)

def write (p : π) : Play π Unit := fun s => (.ok (), (p, s.2))

def change (f : π → π) : Play π Unit := fun s => (.ok (), (f s.1, s.2))

def onStage (act : Act α) : Play π α := fun s =>
  let r := act s.2
  (r.1, (s.1, r.2))

def part (get : σ → π) (put : π → σ → σ) (play : Play π α) : Play σ α := fun s =>
  let r := play (get s.1, s.2)
  (r.1, (put r.2.1 s.1, r.2.2))

def first (play : Play π α) : Play (π × σ) α := part (·.1) (fun p s => (p, s.2)) play

def second (play : Play σ α) : Play (π × σ) α := part (·.2) (fun q s => (s.1, q)) play

def note (e : Entry) : Play π Unit := onStage (.note e)

def say (n : Notice) : Play π Unit := onStage (.say n)

def settings : Play π Settings := onStage (.read (·.settings))

end Play

/-- For whom a step is called, and where it stands. -/
structure Cue where
  owner : String
  site : Site

namespace Cue

def child (c : Cue) (index : Nat) : Cue := { c with site := .child c.site index }

def otherwise (c : Cue) (index : Nat) : Cue := { c with site := .otherwise c.site index }

variable {π : Type}

def enter (c : Cue) (body : Play π Unit) : Play π Unit := do
  Play.note (.called c.site .enter)
  body
  Play.note (.returned c.site none)

def tick (c : Cue) (dt : Float32) (body : Play π Status) : Play π Status := do
  Play.note (.called c.site (.tick dt))
  let status ← body
  Play.note (.returned c.site (some status))
  return status

def exit (c : Cue) (body : Play π Unit) : Play π Unit := do
  Play.note (.called c.site .exit)
  body
  Play.note (.returned c.site none)

def openStep (c : Cue) (source : Source) (label : String) (index : Nat) (fresh : Bool)
    (enter : Play π Unit) : Play π Unit := do
  if fresh then
    if (← Play.settings).traceSteps then Play.say (.entered source c.owner label index)
    c.enter enter

def closeStep (c : Cue) (source : Source) (label : String) (index : Nat) (status : Status)
    (exit : Play π Unit) : Play π Unit := do
  if status.isTerminal then
    c.exit exit
    if (← Play.settings).traceSteps then Play.say (.exited source c.owner label index status)

def tickStep (c : Cue) (source : Source) (label : String) (index : Nat) (dt : Float32)
    (tick : Play π Status) (exit : Play π Unit) : Play π Status := do
  let status ← c.tick dt tick
  c.closeStep source label index status exit
  return status

/-- One frame of a step in a list: it is entered if it was not yet, ticked, and exited as soon as
it settles. -/
def drive (c : Cue) (source : Source) (label : String) (index : Nat) (dt : Float32)
    (fresh : Bool) (enter : Play π Unit) (tick : Play π Status) (exit : Play π Unit) :
    Play π Status := do
  c.openStep source label index fresh enter
  c.tickStep source label index dt tick exit

end Cue

def performAll (run : Runner) : List Command → Act Unit
  | [] => pure ()
  | c :: rest => do
    let reply ← run c
    .note (.did c reply)
    performAll run rest

end Sequencer
