import Sequencer.Play.Poll

/-!
# The life of a sequence

Registering, starting, stopping, pausing, rewinding, removing and resuming sequences by name. A
callback runs between the change it tells of and the rest of the operation, so what it does is
seen by that rest.
-/

set_option autoImplicit false

namespace Sequencer.Conductor

def locate (name : String) : Act (Option Nat) := do
  match ← Act.read (·.find? name) with
  | some id => return some id
  | none =>
    .say (.unknown name)
    return none

def onNamed {α : Type} (name : String) (absent : α) (act : Nat → Act α) : Act α := do
  match ← locate name with
  | some id => act id
  | none => return absent

def enroll (q : Sequence) : Act (Except Refusal Unit) := do
  if (← Act.read (·.find? q.name)).isSome then return .error (.duplicate q.name)
  else
    .say (.registered q.name q.stepCount)
    .change (·.enroll q)
    return .ok ()

def register (o : Outline Command) : Act (Except Refusal Unit) := do
  enroll (Sequence.build (← Act.read (·.host)).resolve o)

/-- Runs a callback, if it is set. -/
def notify (run : Runner) (id : Nat) (hook : Hook) : Act Unit := do
  let q ← Act.read (·.sequence id)
  .note (.notified id q.name hook (q.hook hook).isSome)
  performAll run ((q.hook hook).getD [])

def failures (id : Nat) : Nat → List Validator → Act (List String)
  | _, [] => return []
  | index, v :: rest => do
    let ok ← ask (.validator id index) "" 1 v.condition
    let later ← failures id (index + 1) rest
    return if ok then later else v.message :: later

def admitted (id : Nat) : Option Condition → Act Bool
  | none => return true
  | some guard => ask (.guard id) "" 1 guard

def tryOut (id : Nat) (q : Sequence) : Act (Except Refusal Bool) := do
  .change (·.modify id fun q => { q with validators := [] })
  let failed ← failures id 0 q.validators
  if failed.isEmpty then
    .change (·.modify id Sequence.begun)
    .say (.started q.name q.stepCount)
    .note (.began id)
    .note (.moved id .started 0)
    return .ok true
  else return .error (.invalid q.name failed)

/-- Sets an idle sequence running from its first step, if its guard and its validators let it.
The validators are used up by the attempt that gets past the guard, pass or fail. -/
def launch (id : Nat) : Act (Except Refusal Bool) := do
  let q ← Act.read (·.sequence id)
  if q.running then
    .say (.alreadyRunning q.name)
    return .ok false
  else if !(← admitted id q.guard) then
    .say (.refusedByGuard q.name)
    return .ok false
  else tryOut id q

def start (run : Runner) (name : String) : Act (Except Refusal Bool) :=
  onNamed name (.ok false) fun id => do
    match ← launch id with
    | .ok true =>
      .change (·.enlist id)
      notify run id .started
      return .ok true
    | r => return r

/-- Ends the run of a sequence where it stands; its current step is not exited. -/
def breakOff (run : Runner) (id : Nat) : Act Bool := do
  let q ← Act.read (·.sequence id)
  if q.running then
    .change (·.modify id Sequence.ended)
    .say (.stopped q.name q.current)
    notify run id .stopped
    return true
  else return false

def stop (run : Runner) (name : String) : Act Bool :=
  onNamed name false fun id => do
    let stopped ← breakOff run id
    .note (.dropped id (← Act.read (·.sequence id)).running)
    .change (·.delist id)
    return stopped

def finish (run : Runner) (id : Nat) : Act Unit := do
  .change (·.modify id Sequence.ended)
  .say (.completed (← Act.read (·.sequence id)).name)
  notify run id .completed

def setPaused (name : String) (paused : Bool → Bool) : Act Bool :=
  onNamed name false fun id => do
    .change (·.modify id fun q => { q with paused := paused q.paused })
    return true

def reset (name : String) : Act Bool :=
  onNamed name false fun id => do
    .change (·.modify id Sequence.rewound)
    .note (.moved id .reset 0)
    return true

/-- Takes a sequence out of the registry first, then stops it. -/
def remove (run : Runner) (name : String) : Act Bool := do
  match ← Act.read (·.find? name) with
  | none => return false
  | some id =>
    .change (·.unregister name)
    let _ ← breakOff run id
    .change (·.delist id)
    .say (.removed name)
    return true

def capture (name : String) : Act (Option Bookmark) :=
  onNamed name none fun id => return some (← Act.read (·.sequence id)).bookmark

/-- Sets a sequence running at a bookmark, whatever it was doing. The step there is entered when
the sequence is next driven. -/
def restore (b : Bookmark) : Act Bool :=
  onNamed b.sequence false fun id => do
    let q ← Act.read (·.sequence id)
    .change (·.modify id (Sequence.resumed b.index))
    .note (.restored id q.running)
    .note (.moved id (.restored b.index) (← Act.read (·.sequence id)).current)
    .change (·.enlist id)
    .say (.restored b.sequence (← Act.read (·.sequence id)).current)
    return true

end Sequencer.Conductor
