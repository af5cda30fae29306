import Sequencer.Notice

/-!
# The journal

What happened, entry by entry. Some entries are shown to the host; the others say which step was
called when, how each turn of a sequence went, and when sequences began and ended.
-/

set_option autoImplicit false

namespace Sequencer

/-- Where a step stands: in a sequence, in the hands of the host, or below another step. -/
inductive Site where
  | top (sequence index : Nat)
  | held (slot : String)
  | child (parent : Site) (index : Nat)
  /-- In the second list of a choice. -/
  | otherwise (parent : Site) (index : Nat)
  deriving DecidableEq, Repr

inductive Asker where
  | step (site : Site)
  | guard (sequence : Nat)
  | validator (sequence index : Nat)
  deriving DecidableEq, Repr

inductive Call where
  | enter
  | tick (dt : Float32)
  | exit

inductive Turn where
  /-- Passed over because it is paused. -/
  | paused
  /-- Not running, so nothing was done. -/
  | idle
  /-- Past the last step, so it completed. -/
  | completed
  /-- One of its steps is being called further out. -/
  | busy
  /-- No step stands at the cursor. -/
  | missing
  /-- The step at the cursor was ticked. -/
  | driven
  deriving DecidableEq, Repr

inductive Hook where
  | started
  | completed
  | stopped
  deriving DecidableEq, Repr

def Hook.word : Hook → String
  | .started => "on_started"
  | .completed => "on_completed"
  | .stopped => "on_stopped"

inductive Move where
  | started
  | reset
  /-- At the index asked for, or past the last step. -/
  | restored (index : Nat)
  /-- The step at the cursor settled. -/
  | settled
  deriving DecidableEq, Repr

inductive Entry where
  | notice (n : Notice)
  | frame (index : Nat)
  | probeEntered (id owner : String)
  | probeTicked (id owner : String) (dt : Float32) (status : Status)
  | probeExited (id owner : String)
  | polled (asker : Asker) (id : Option String) (answer : Bool)
  | published (event : Event)
  | invoked (system : String) (command : Instruction) (accepted : Bool)
  | componentSet (entity : EntityId) (component : String) (enabled ok : Bool)
  | poseSet (entity : EntityId) (pose : Pose) (ok : Bool)
  /-- A callback is about to run; one that is not set runs nothing. -/
  | notified (sequence : Nat) (name : String) (hook : Hook) (isSet : Bool)
  | did (command : Command) (reply : Reply)
  | called (site : Site) (call : Call)
  | returned (site : Site) (status : Option Status)
  | turn (sequence : Nat) (turn : Turn)
  /-- The step that was driven in a turn has answered. -/
  | drove (sequence : Nat) (status : Status)
  | began (sequence : Nat)
  | restored (sequence : Nat) (wasRunning : Bool)
  | moved (sequence : Nat) (move : Move) (cursor : Nat)
  /-- A stop takes a sequence off the active list; its callback may have set it running again. -/
  | dropped (sequence : Nat) (running : Bool)
  | arrived (barrier : String)

def Entry.shown (log : Bool) : Entry → Bool
  | .notice _ => log
  | .frame _ => true
  | .probeEntered .. => true
  | .probeTicked .. => true
  | .probeExited .. => true
  | .polled _ id _ => id.isSome
  | .published _ => true
  | .invoked .. => true
  | .componentSet .. => true
  | .poseSet .. => true
  | .notified _ _ _ isSet => isSet
  | .did .. => true
  | .called .. => false
  | .returned .. => false
  | .turn .. => false
  | .drove .. => false
  | .began _ => false
  | .restored .. => false
  | .moved .. => false
  | .dropped .. => false
  | .arrived _ => false

end Sequencer
