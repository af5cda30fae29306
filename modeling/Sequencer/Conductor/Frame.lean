import Sequencer.Play.Step

/-!
# A frame

Every sequence that is active when the frame begins gets one turn, in the order of the active
list. A turn ticks the step at the cursor, or completes a sequence whose cursor is past the last
step.
-/

set_option autoImplicit false

namespace Sequencer.Conductor

/-- Plays with the progress of one step of a sequence, which is ticking meanwhile. What the play
made of the progress is kept also when it halts. -/
def lend {α : Type} (id index : Nat) (part : Part) (play : Play part.step.Progress α) : Act α :=
  fun s =>
    let r := play (part.progress, s.modify id fun q => { q with ticking := true })
    (r.1, r.2.2.modify id fun q =>
      { q.withPart index { part with progress := r.2.1 } with ticking := false })

def playPart (run : Runner) (dt : Float32) (id : Nat) (q : Sequence) (part : Part) :
    Play part.step.Progress Status :=
  let cue : Cue := { owner := q.name, site := .top id q.current }
  cue.drive .sequence part.step.label q.current dt (!q.entered) (part.step.enter run cue)
    (part.step.tick run dt cue) (part.step.exit run cue)

/-- Drives the step at the cursor for one frame. The cursor moves on when the step settles,
unless it was moved from outside meanwhile. -/
def driveStep (run : Runner) (dt : Float32) (id : Nat) (q : Sequence) (part : Part) :
    Act Unit := do
  .note (.turn id .driven)
  .change (·.modify id fun q => { q with entered := true })
  let status ← lend id q.current part (playPart run dt id q part)
  .note (.drove id status)
  if status.isTerminal then
    if (← Act.read (·.sequence id)).generation = q.generation then
      .change (·.modify id (Sequence.advanced q.current))
      .note (.moved id .settled (q.current + 1))

def turn (run : Runner) (dt : Float32) (id : Nat) : Act Unit := do
  let q ← Act.read (·.sequence id)
  if !q.running then .note (.turn id .idle)
  else if q.stepCount ≤ q.current then
    .note (.turn id .completed)
    finish run id
  else if q.ticking then
    .note (.turn id .busy)
    .say (.alreadyTicking q.name)
  else
    match q.parts[q.current]? with
    | some part => driveStep run dt id q part
    | none => .note (.turn id .missing)

/-- A turn, and off the active list with a sequence that does not run after it. -/
def takeTurn (run : Runner) (dt : Float32) (id : Nat) : Act Unit := do
  if (← Act.read (·.sequence id)).paused then .note (.turn id .paused)
  else
    turn run dt id
    if !(← Act.read (·.sequence id)).running then .change (·.delist id)

def takeTurns (run : Runner) (dt : Float32) : List Nat → Act Unit
  | [] => pure ()
  | id :: rest => do
    takeTurn run dt id
    takeTurns run dt rest

def tick (run : Runner) (dt : Float32) : Act Unit := do
  takeTurns run dt (← Act.read (·.active))

def tickMany (run : Runner) (dt : Float32) (first : Nat) : Nat → Act Unit
  | 0 => pure ()
  | n + 1 => do
    .note (.frame first)
    tick run dt
    tickMany run dt (first + 1) n

end Sequencer.Conductor
