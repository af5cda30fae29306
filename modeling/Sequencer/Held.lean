import Sequencer.Play.Step

/-!
# Steps in the hands of the host

A host can build a step, a list of steps or a sequence and keep it in a slot. It drives steps and
lists by itself. While it does, the slot is empty, so that a callback cannot reach into it.
-/

set_option autoImplicit false

namespace Sequencer.Hands

def cueOf (slot : String) : Cue := { owner := "host", site := .held slot }

def put (slot : String) (h : Held) : Act Unit :=
  .change fun s => { s with held := s.held.put slot h }

def resolver : Act (String → EntityId) := do return (← Act.read (·.host)).resolve

def describe (p : Part) : Reply :=
  match p with
  | ⟨.retry _ _, progress⟩ =>
    let p : RetryProgress _ := progress
    .retry none p.failures
  | ⟨.parallel mode steps, _⟩ => .parallel mode steps.length
  | ⟨step, _⟩ => .label step.label

def afterTick (p : Part) (status : Status) : Reply :=
  match p with
  | ⟨.retry _ _, progress⟩ =>
    let p : RetryProgress _ := progress
    .retry (some status) p.failures
  | _ => .status status

def describeTrack (t : HeldTrack) (status : Option Status) : Reply :=
  .track status t.track.cursor t.steps.length

def holdStep (slot : String) (step : Step Command) : Act Reply := do
  let p := Part.build (← resolver) step
  put slot (.part p)
  return describe p

def holdTrack (slot : String) (steps : List (Step Command)) (onFailure : OnFailure) :
    Act Reply := do
  let t : HeldTrack :=
    { steps, onFailure, track := { children := freshChildren (← resolver) steps } }
  put slot (.track t)
  return describeTrack t none

def holdSequence (slot : String) (o : Outline Command) : Act Reply := do
  let q := Sequence.build (← resolver) o
  put slot (.sequence q)
  return .sequence q.info

def playPart {α : Type} (slot : String)
    (play : (s : Step Command) → Play s.Progress α) (answer : Part → α → Reply) : Act Reply :=
  fun s =>
    match s.held.get? slot with
    | some (.part p) =>
      let r := play p.step (p.progress, { s with held := s.held.erase slot })
      let p : Part := ⟨p.step, r.2.1⟩
      (r.1.map (answer p), { r.2.2 with held := r.2.2.held.put slot (.part p) })
    | _ => (.ok .senseless, s)

def playTrack {α : Type} (slot : String)
    (play : (t : HeldTrack) → Play (Track (Children t.steps)) α)
    (answer : HeldTrack → α → Reply) : Act Reply :=
  fun s =>
    match s.held.get? slot with
    | some (.track t) =>
      let r := play t (t.track, { s with held := s.held.erase slot })
      let t : HeldTrack := { t with track := r.2.1 }
      (r.1.map (answer t), { r.2.2 with held := r.2.2.held.put slot (.track t) })
    | _ => (.ok .senseless, s)

def enter (run : Runner) (slot : String) : Act Reply :=
  playPart slot (fun s => (cueOf slot).enter (s.enter run (cueOf slot))) fun _ _ => .nothing

def exit (run : Runner) (slot : String) : Act Reply :=
  playPart slot (fun s => (cueOf slot).exit (s.exit run (cueOf slot))) fun _ _ => .nothing

def tick (run : Runner) (slot : String) (dt : Float32) : Act Reply :=
  playPart slot (fun s => (cueOf slot).tick dt (s.tick run dt (cueOf slot))) afterTick

def tickTrack (run : Runner) (slot : String) (dt : Float32) : Act Reply :=
  playTrack slot
    (fun t => Track.tick t.steps.length t.onFailure fun i fresh =>
      driveNth run dt t.steps ((cueOf slot).child i) i i fresh)
    fun t status => describeTrack t (some status)

def cancelTrack (run : Runner) (slot : String) : Act Reply :=
  playTrack slot
    (fun t => Track.cancel t.steps.length fun i => exitNth run t.steps ((cueOf slot).child i) i)
    fun t _ => describeTrack t none

def rewindTrack (slot : String) : Act Reply :=
  playTrack slot (fun _ => Play.change Track.rewound) fun t _ => describeTrack t none

/-- Registers a held sequence, which leaves its slot whether or not its name is free. -/
def register (slot : String) : Act Reply := fun s =>
  match s.held.get? slot with
  | some (.sequence q) =>
    let r := Conductor.enroll q { s with held := s.held.erase slot }
    (r.1.map fun e => match e with
      | .ok () => Reply.done
      | .error why => .refused why, r.2)
  | _ => (.ok .senseless, s)

end Sequencer.Hands
