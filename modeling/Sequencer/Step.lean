import Sequencer.Condition
import Sequencer.Scene
import Sequencer.Status

/-!
# Steps

A step is a unit of work that may take many frames. The tree of a step never changes; what it
has done so far is kept apart, as its progress. Callbacks are lists of commands, of whatever
type commands are.
-/

set_option autoImplicit false

namespace Sequencer

inductive Target where
  | position (value : Vec3)
  | rotation (value : Quat)
  | scale (value : Vec3)
  /-- Turn to face a point. -/
  | lookAt (point : Vec3)

def Target.label : Target → String
  | .position _ => "move-to"
  | .rotation _ => "rotate-to"
  | .scale _ => "scale-to"
  | .lookAt _ => "look-at"

structure Tween where
  entity : String
  target : Target
  duration : Float32
  curve : Curve

/-- A condition that a step asks, and what the code behind it does before it answers. -/
structure Question (κ : Type) extends Condition where
  code : List κ := []

instance {κ : Type} : Coe Condition (Question κ) := ⟨fun c => { c with }⟩

inductive Step (κ : Type) where
  | wait (seconds : Float32)
  | frames (count : UInt32)
  | publish (event : Event)
  | invoke (system : String) (command : Instruction)
  | component (entity component : String) (enabled : Bool)
  | call (commands : List κ)
  | startSequence (target : String)
  | stopSequence (target : String)
  | tween (tween : Tween)
  /-- Asks once, when it is entered, and runs one of two lists. -/
  | choose (question : Question κ) (yes no : List (Step κ))
  /-- Asks every frame until the answer is yes or the time is up. -/
  | await (question : Question κ) (limit : Option Float32) (policy : Expiry)
  /-- Bounds the time of a list. -/
  | bounded (seconds : Float32) (policy : Expiry) (steps : List (Step κ))
  /-- Runs a list again until it ends without a failure. -/
  | retry (attempts : UInt32) (steps : List (Step κ))
  | group (steps : List (Step κ))
  | parallel (mode : Quorum) (steps : List (Step κ))
  | barrier (name : String) (expected : UInt32)
  /-- Answers by a script that its activations use up, and shows every call it gets. -/
  | probe (id : String) (script : List Status)
  /-- A step of the host's own making: it carries out commands at each of its calls, and answers
  by a script. -/
  | custom (onEnter onTick onExit : List κ) (script : List Status)

def Step.bare {κ : Type} (script : List Status) : Step κ := .custom [] [] [] script

def Step.label {κ : Type} : Step κ → String
  | .wait _ => "wait-seconds"
  | .frames _ => "wait-frames"
  | .publish _ => "publish-event"
  | .invoke _ _ => "invoke-system"
  | .component _ _ _ => "set-component-enabled"
  | .call _ => "callback"
  | .startSequence _ => "start-sequence"
  | .stopSequence _ => "stop-sequence"
  | .tween t => t.target.label
  | .choose _ _ _ => "if-else"
  | .await _ _ _ => "wait-until"
  | .bounded _ _ _ => "timeout"
  | .retry _ _ => "retry"
  | .group _ => "group"
  | .parallel mode _ => mode.label
  | .barrier _ _ => "barrier"
  | .probe id _ => id
  | .custom _ _ _ _ => "step"

/-- A check made before the first start, with what to say when it fails. -/
structure Validator where
  condition : Condition
  message : String

/-- A sequence as it is written down. Of several guards the last one counts. -/
structure Outline (κ : Type) where
  name : String
  steps : List (Step κ) := []
  guards : List Condition := []
  validators : List Validator := []
  onStarted : Option (List κ) := none
  onCompleted : Option (List κ) := none
  onStopped : Option (List κ) := none

end Sequencer
