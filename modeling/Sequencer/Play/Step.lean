import Sequencer.Conductor.Lifecycle
import Sequencer.Play.Composite
import Sequencer.Play.Tween

/-!
# Playing a step

What entering, ticking and exiting a step do, for every kind of step, by recursion on its tree.
-/

set_option autoImplicit false

namespace Sequencer

def Step.exit (run : Runner) : (s : Step Command) → Cue → Play s.Progress Unit
  | .probe id _, cue => Play.note (.probeExited id cue.owner)
  | .custom _ _ onExit _, _ => Play.onStage (performAll run onExit)
  | _, _ => pure ()

mutual

def Step.enter (run : Runner) : (s : Step Command) → Cue → Play s.Progress Unit
  | .wait _, _ => Play.write (π := Float32) 0
  | .frames _, _ => Play.write (π := UInt32) 0
  | .tween t, _ => t.enter
  | .choose question _ _, cue => ChoiceProgress.enter run cue question
  | .await _ _ _, _ => Play.change fun (p : AwaitProgress) => { p with elapsed := 0 }
  | .bounded _ _ _, _ => BoundedProgress.enter
  | .retry _ _, _ => RetryProgress.enter
  | .group _, _ => Play.change Track.rewound
  | .parallel _ steps, cue => enterLanes run steps cue 0
  | .barrier name expected, cue => Simple.arrive cue.owner name expected
  | .probe id _, cue => Play.note (.probeEntered id cue.owner)
  | .publish _, _ => pure ()
  | .invoke _ _, _ => pure ()
  | .component _ _ _, _ => pure ()
  | .call _, _ => pure ()
  | .startSequence _, _ => pure ()
  | .stopSequence _, _ => pure ()
  | .custom onEnter _ _ _, _ => Play.onStage (performAll run onEnter)

def enterLanes (run : Runner) : (l : List (Step Command)) → Cue → Nat → Play (Lanes l) Unit
  | [], _, _ => pure ()
  | s :: rest, cue, index => do
    Play.first (Lane.enter (cue.child index) (s.enter run (cue.child index)))
    Play.second (enterLanes run rest cue (index + 1))

end

def exitNth (run : Runner) : (l : List (Step Command)) → Cue → Nat → Play (Children l) Unit
  | [], _, _ => pure ()
  | s :: _, cue, 0 => Play.first (cue.exit (s.exit run cue))
  | _ :: rest, cue, n + 1 => Play.second (exitNth run rest cue n)

def startAnother (run : Runner) (owner target : String) : Act Status := do
  match ← Conductor.start run target with
  | .ok started => return .ofOutcome started
  | .error why =>
    .say (.startFailed owner target why)
    return .failed

mutual

def Step.tick (run : Runner) (dt : Float32) : (s : Step Command) → Cue → Play s.Progress Status
  | .wait seconds, _ => Simple.wait seconds dt
  | .frames count, _ => Simple.frames count
  | .publish event, _ => do
    Play.onStage (Simple.publish event)
    return .succeeded
  | .invoke system command, cue => Play.onStage (Simple.invoke cue.owner system command)
  | .component _ component enabled, cue => do
    let id : EntityId ← Play.read
    Play.onStage (Simple.component cue.owner id component enabled)
  | .call commands, _ => do
    Play.onStage (performAll run commands)
    return .succeeded
  | .startSequence target, cue => Play.onStage (startAnother run cue.owner target)
  | .stopSequence target, _ => do
    return .ofOutcome (← Play.onStage (Conductor.stop run target))
  | .tween t, cue => t.tick cue.owner dt
  | .choose _ yes no, cue =>
    ChoiceProgress.tick
      (Track.tick yes.length .advance fun i fresh =>
        driveNth run dt yes (cue.child i) i i fresh)
      (Track.tick no.length .advance fun i fresh =>
        driveNth run dt no (cue.otherwise i) i i fresh)
  | .await question limit policy, cue => Simple.await run cue question limit policy dt
  | .bounded seconds policy steps, cue =>
    BoundedProgress.tick cue.owner seconds policy dt
      (Track.tick steps.length .advance fun i fresh =>
        driveNth run dt steps (cue.child i) i i fresh)
      (Track.cancel steps.length fun i => exitNth run steps (cue.child i) i)
  | .retry attempts steps, cue =>
    RetryProgress.tick cue.owner attempts
      (Track.tick steps.length .propagate fun i fresh =>
        driveNth run dt steps (cue.child i) i i fresh)
  | .group steps, cue =>
    Track.tick steps.length .propagate fun i fresh =>
      driveNth run dt steps (cue.child i) i i fresh
  | .parallel mode steps, cue => do
    let settled ← tickLanes run dt steps cue 0
    mode.conclude cue.owner settled.reduceOption (pendingLanes steps (← Play.read))
  | .barrier name expected, cue => Simple.barrier cue.owner name expected dt
  | .probe id script, cue => Simple.scriptedTick (some id) cue.owner script dt
  | .custom _ onTick _ script, cue => do
    Play.onStage (performAll run onTick)
    Simple.scriptedTick none cue.owner script dt

def driveNth (run : Runner) (dt : Float32) :
    (l : List (Step Command)) → Cue → Nat → Nat → Bool → Play (Children l) Status
  | [], _, _, _, _ => return .succeeded
  | s :: _, cue, index, 0, fresh =>
    Play.first <| cue.drive .flow s.label index dt fresh (s.enter run cue) (s.tick run dt cue)
      (s.exit run cue)
  | _ :: rest, cue, index, n + 1, fresh => Play.second (driveNth run dt rest cue index n fresh)

/-- Ticks the children of a parallel step that have not settled, the first of them number
`index`, and collects the statuses with which children settle. -/
def tickLanes (run : Runner) (dt : Float32) :
    (l : List (Step Command)) → Cue → Nat → Play (Lanes l) (List (Option Status))
  | [], _, _ => return []
  | s :: rest, cue, index => do
    let cue' := cue.child index
    let status ← Play.first (Lane.tick cue' dt (s.tick run dt cue') (s.exit run cue'))
    return status :: (← Play.second (tickLanes run dt rest cue (index + 1)))

end

end Sequencer
