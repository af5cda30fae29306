import Sequencer.Command
import Sequencer.Settings

/-!
# Replies

What a host gets back for a command.
-/

set_option autoImplicit false

namespace Sequencer

inductive Refusal where
  | duplicate (name : String)
  | invalid (sequence : String) (failures : List String)

def Refusal.message : Refusal → String
  | .duplicate name => "Sequence already registered: " ++ name
  | .invalid sequence failures =>
    "Sequence '" ++ sequence ++ "' failed validation: " ++ "; ".intercalate failures

structure SequenceInfo where
  name : String
  stepCount : Nat
  current : Nat
  running : Bool
  paused : Bool
  /-- Whether validators still wait for the first start. -/
  pending : Bool

namespace SequenceInfo

def bookmark (i : SequenceInfo) : Bookmark := ⟨i.name, i.current⟩

def describe (i : SequenceInfo) : String :=
  let flag (b : Bool) : String := if b then "true" else "false"
  "Sequence \x7b name: " ++ String.ofList (Text.quoted false i.name.toList) ++
    ", step_count: " ++ toString i.stepCount ++ ", current: " ++ toString i.current ++
    ", running: " ++ flag i.running ++ ", paused: " ++ flag i.paused ++ ", .. \x7d"

end SequenceInfo

inductive Reply where
  | nothing
  | done
  | yesNo (answer : Bool)
  | maybe (answer : Option Bool)
  | count (n : Nat)
  | total (n : Int)
  | text (s : String)
  | names (l : List String)
  | settings (s : Settings)
  | bookmark (b : Option Bookmark)
  | counters (l : List (String × UInt32))
  | eventNames (l : List String)
  | events (l : List Event)
  | received (l : List Instruction)
  | pose (t : Option Pose)
  | label (s : String)
  | status (s : Status)
  | retry (status : Option Status) (failures : UInt32)
  | parallel (mode : Quorum) (children : Nat)
  | track (status : Option Status) (cursor length : Nat)
  | sequence (info : SequenceInfo)
  | refused (why : Refusal)
  | panicked (message : String)
  /-- The command makes no sense here: a slot that holds nothing of the kind, an unknown name for
  a bookmark, or callbacks nested too deep. -/
  | senseless

end Sequencer
