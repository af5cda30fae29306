import Sequencer.Play.Poll

/-!
# Waits, effects and probes

The steps without children, save those that move an entity: what each does when it is entered
and in a frame.
-/

set_option autoImplicit false

namespace Sequencer

namespace Simple

def wait (seconds dt : Float32) : Play Float32 Status := do
  let elapsed := (← Play.read) + dt
  Play.write elapsed
  return if elapsed ≥ seconds then .succeeded else .running

def frames (count : UInt32) : Play UInt32 Status := do
  let counted := (← Play.read) + 1
  Play.write counted
  return if counted ≥ count then .succeeded else .running

def publish (e : Event) : Act Unit := do
  if ← Act.read (·.host.muted) then pure ()
  else
    .note (.published e)
    .change fun s => { s with host := { s.host with events := s.host.events ++ [e] } }

def invokeSystem (system : String) (command : Instruction) : Act Bool := do
  let accepted ← Act.inScene (·.invoke system command)
  .note (.invoked system command accepted)
  return accepted

def setComponent (id : EntityId) (component : String) (enabled : Bool) : Act Bool := do
  let ok ← Act.inScene (·.setComponentEnabled id component enabled)
  .note (.componentSet id component enabled ok)
  return ok

def setPose (id : EntityId) (t : Pose) : Act Bool := do
  let locked ← Act.read fun s => decide (id ∈ s.host.locked)
  let ok ← if locked then pure false else Act.inScene (·.setPose id t)
  .note (.poseSet id t ok)
  return ok

def invoke (owner system : String) (command : Instruction) : Act Status := do
  let accepted ← invokeSystem system command
  if !accepted then .say (.notAccepted owner system command.action)
  return .ofOutcome accepted

def component (owner : String) (id : EntityId) (component : String) (enabled : Bool) :
    Act Status := do
  let ok ← setComponent id component enabled
  if !ok then .say (.componentMissing owner component id)
  return .ofOutcome ok

def scriptedTick (id : Option String) (owner : String) (script : List Status) (dt : Float32) :
    Play Nat Status := do
  let used ← Play.read
  Play.write (used + 1)
  let status := scripted .succeeded script used
  match id with
  | some id => Play.note (.probeTicked id owner dt status)
  | none => pure ()
  return status

def arrive (owner name : String) (expected : UInt32) : Play BarrierProgress Unit := do
  Play.onStage (.change (·.arrive name))
  let count ← Play.onStage (.read (·.barriers.count name))
  Play.write { released := decide (count ≥ expected), waited := 0, warned := false }
  Play.say (.arrived owner name count expected)

def overdue (limit : Option Float32) (p : BarrierProgress) (waited : Float32) : Bool :=
  match limit with
  | some bound => !p.warned && waited > bound
  | none => false

/-- Waits until enough have arrived, and warns once when that takes longer than the settings
allow. -/
def barrier (owner name : String) (expected : UInt32) (dt : Float32) :
    Play BarrierProgress Status := do
  let count ← Play.onStage (.read (·.barriers.count name))
  let p ← Play.read
  if p.released || count ≥ expected then
    Play.write { p with released := true }
    return .succeeded
  else
    let waited := p.waited + dt
    let late := overdue (← Play.settings).barrierWarnAfter p waited
    Play.write { p with waited, warned := p.warned || late }
    if late then Play.say (.stillWaiting owner name waited count expected)
    return .running

/-- Asks every frame; only a no takes time. -/
def await (run : Runner) (cue : Cue) (question : Question Command) (limit : Option Float32)
    (policy : Expiry) (dt : Float32) : Play AwaitProgress Status := do
  Play.change fun p => { p with polls := p.polls + 1 }
  let answer ← Play.onStage (inquire run (.step cue.site) cue.owner (← Play.read).polls question)
  if answer then return .succeeded
  else
    let elapsed := (← Play.read).elapsed + dt
    Play.change fun p => { p with elapsed }
    match limit with
    | some bound =>
      if elapsed ≥ bound then
        Play.say (.waitTimedOut cue.owner bound)
        return policy.outcome
      else return .running
    | none => return .running

end Simple

end Sequencer
