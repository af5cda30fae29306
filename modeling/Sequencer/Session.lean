import Sequencer.Conductor.Frame
import Sequencer.Held

/-!
# Sessions

Carrying out commands one after another on one stage. Commands run callbacks, which are commands
again, down to a fixed depth. A command that panics leaves the stage as it was at that moment,
and the next command goes on from there.
-/

set_option autoImplicit false

namespace Sequencer

def Query.answer (s : Stage) : Query → Reply
  | .isPaused name => .yesNo (s.isPaused name)
  | .isRunning name => .yesNo (s.isRunning name)
  | .contains name => .yesNo (s.find? name).isSome
  | .activeCount => .count s.active.length
  | .names => .names s.registry.keys
  | .summary => .text s.summary
  | .settings => .settings s.settings
  | .barrierCount name => .count (s.barriers.count name).toNat
  | .barriers => .counters s.barriers.counters.entries
  | .events => .eventNames (s.host.events.map (·.name))
  | .received system => .received (s.host.scene.received system)
  | .hasSystem name => .yesNo (s.host.scene.hasSystem name)
  | .hasEntity label => .yesNo (s.host.scene.hasEntity (s.host.resolve label))
  | .entityCount => .count s.host.scene.entityCount
  | .componentEnabled label component =>
    .maybe (s.host.scene.componentEnabled? (s.host.resolve label) component)
  | .pose label => .pose (s.host.scene.pose? (s.host.resolve label))

def onHost (f : Host → Host) : Act Unit := .change fun s => { s with host := f s.host }

def resolved (label : String) : Act EntityId := do return (← Act.read (·.host)).resolve label

def Change.apply : Change → Act Reply
  | .engine frame elapsed timeScale => do
    onHost fun h => { h with engine := ⟨frame, elapsed, timeScale⟩ }
    return .nothing
  | .flag name value => do
    onHost fun h => { h with flags := h.flags.put name value }
    return .nothing
  | .count name amount => do
    let n := ((← Act.read (·.host.counters.get? name)).getD 0) + amount
    onHost fun h => { h with counters := h.counters.put name n }
    return .total n
  | .publish event => do
    Simple.publish event
    return .nothing
  | .takeEvents => do
    let events ← Act.read (·.host.events)
    onHost fun h => { h with events := [] }
    return .events events
  | .addSystem name => do
    Act.inScene fun s => ((), s.addSystem name)
    return .nothing
  | .invoke system command => return .yesNo (← Simple.invokeSystem system command)
  | .spawn label pose => do
    let id ← Act.inScene (·.spawn label pose)
    onHost fun h => { h with entities := h.entities.put label id }
    return .nothing
  | .despawn label => do
    let id ← resolved label
    return .yesNo (← Act.inScene (·.despawn id))
  | .addComponent label component enabled => do
    let id ← resolved label
    return .yesNo (← Act.inScene (·.addComponent id component enabled))
  | .setComponent label component enabled => do
    return .yesNo (← Simple.setComponent (← resolved label) component enabled)
  | .setPose label pose => do
    return .yesNo (← Simple.setPose (← resolved label) pose)
  | .lock label => do
    let id ← resolved label
    onHost fun h => { h with locked := id :: h.locked }
    return .nothing
  | .arrive barrier => do
    .change (·.arrive barrier)
    return .count (← Act.read (·.barriers.count barrier)).toNat

def Reply.ofOutcome {α : Type} (f : α → Reply) : Except Refusal α → Reply
  | .ok a => f a
  | .error why => .refused why

/-- What a command does, given how the commands of its callbacks are carried out. -/
def dispatch (run : Runner) : Command → Act Reply
  | .register outline => return .ofOutcome (fun _ => .done) (← Conductor.register outline)
  | .start name => return .ofOutcome .yesNo (← Conductor.start run name)
  | .stop name => return .yesNo (← Conductor.stop run name)
  | .pause name => return .yesNo (← Conductor.setPaused name fun _ => true)
  | .resume name => return .yesNo (← Conductor.setPaused name fun _ => false)
  | .togglePause name => return .yesNo (← Conductor.setPaused name not)
  | .reset name => return .yesNo (← Conductor.reset name)
  | .remove name => return .yesNo (← Conductor.remove run name)
  | .tick dt none => do
    Conductor.tick run dt
    return .nothing
  | .tick dt (some n) => do
    Conductor.tickMany run dt 0 n
    return .nothing
  | .capture name keepAs => do
    let b ← Conductor.capture name
    match keepAs, b with
    | some key, some b => onHost fun h => { h with bookmarks := h.bookmarks.put key b }
    | _, _ => pure ()
    return .bookmark b
  | .restore (.at b) => return .yesNo (← Conductor.restore b)
  | .restore (.kept key) => do
    match (← Act.read (·.host.bookmarks.get? key)) with
    | some b => return .yesNo (← Conductor.restore b)
    | none => return .senseless
  | .ask query => .read query.answer
  | .edit change => change.apply
  | .panic message => .halt (.panic message)
  | .holdStep slot step => Hands.holdStep slot step
  | .enterHeld slot => Hands.enter run slot
  | .tickHeld slot dt => Hands.tick run slot dt
  | .exitHeld slot => Hands.exit run slot
  | .holdTrack slot steps onFailure => Hands.holdTrack slot steps onFailure
  | .tickTrack slot dt => Hands.tickTrack run slot dt
  | .cancelTrack slot => Hands.cancelTrack run slot
  | .rewindTrack slot => Hands.rewindTrack slot
  | .holdSequence slot outline => Hands.holdSequence slot outline
  | .registerHeld slot => Hands.register slot

/-- Carries out a command whose callbacks nest less deep than `depth`. -/
def perform : Nat → Runner
  | 0, _ => .halt .tooDeep
  | depth + 1, c => dispatch (perform depth) c

def maxDepth : Nat := 1000

/-- What the host gets to see of one command: the reply, the stage after it, and what happened
meanwhile, oldest first. -/
structure Report where
  reply : Reply
  view : StageView
  trace : List Entry

def Halt.reply : Halt → Reply
  | .panic message => .panicked message
  | .tooDeep => .senseless

namespace Stage

def replyOf : Except Halt Reply → Reply
  | .ok r => r
  | .error h => h.reply

def step (c : Command) (s : Stage) : Reply × Stage :=
  let r := perform maxDepth c s
  (replyOf r.1, r.2)

def newEntries (before after : Stage) : List Entry :=
  (after.journal.take (after.journal.length - before.journal.length)).reverse

def report (log : Bool) (c : Command) (s : Stage) : Report × Stage :=
  let r := s.step c
  ({ reply := r.1
     view := r.2.view
     trace := (s.newEntries r.2).filter (·.shown log) }, r.2)

def run (log : Bool) : List Command → Stage → List Report × Stage
  | [], s => ([], s)
  | c :: rest, s =>
    let r := s.report log c
    let later := run log rest r.2
    (r.1 :: later.1, later.2)

end Stage

end Sequencer
