import Sequencer.Step

/-!
# Progress

What a step remembers between frames, by the shape of the step. Nothing is forgotten between
two activations but what entering the step overwrites.
-/

set_option autoImplicit false

namespace Sequencer

variable {κ : Type}

/-- A list of steps with a cursor, and whether the step at the cursor was entered. -/
structure Track (π : Type) where
  cursor : Nat := 0
  entered : Bool := false
  children : π

structure Lane (π : Type) where
  settled : Option Status := none
  child : π

structure TweenProgress where
  entity : EntityId
  elapsed : Float32 := 0
  /-- The pose when the step was entered. -/
  start : Option Pose := none
  /-- The rotation that looks at the point, from where the entity stood then. -/
  facing : Option Quat := none

structure ChoiceProgress (π ρ : Type) where
  polls : Nat := 0
  /-- Whether the second list was chosen. -/
  second : Bool := false
  yes : Track π
  no : Track ρ

structure AwaitProgress where
  polls : Nat := 0
  elapsed : Float32 := 0

structure BoundedProgress (π : Type) where
  elapsed : Float32 := 0
  body : Track π

structure RetryProgress (π : Type) where
  /-- Failed passes in this activation. -/
  failures : UInt32 := 0
  body : Track π

structure BarrierProgress where
  released : Bool := false
  waited : Float32 := 0
  warned : Bool := false

mutual

def Step.Progress : Step κ → Type
  | .wait _ => Float32
  | .frames _ => UInt32
  | .publish _ => Unit
  | .invoke _ _ => Unit
  | .component _ _ _ => EntityId
  | .call _ => Unit
  | .startSequence _ => Unit
  | .stopSequence _ => Unit
  | .tween _ => TweenProgress
  | .choose _ yes no => ChoiceProgress (Children yes) (Children no)
  | .await _ _ _ => AwaitProgress
  | .bounded _ _ steps => BoundedProgress (Children steps)
  | .retry _ steps => RetryProgress (Children steps)
  | .group steps => Track (Children steps)
  | .parallel _ steps => Lanes steps
  | .barrier _ _ => BarrierProgress
  | .probe _ _ => Nat
  | .custom _ _ _ _ => Nat

def Children : List (Step κ) → Type
  | [] => Unit
  | s :: rest => s.Progress × Children rest

def Lanes : List (Step κ) → Type
  | [] => Unit
  | s :: rest => Lane s.Progress × Lanes rest

end

mutual

/-- The progress of a step that was never entered. A step that acts on an entity remembers whom
its name meant when it was built. -/
def Step.fresh (resolve : String → EntityId) : (s : Step κ) → s.Progress
  | .wait _ => (0 : Float32)
  | .frames _ => (0 : UInt32)
  | .publish _ => ()
  | .invoke _ _ => ()
  | .component entity _ _ => resolve entity
  | .call _ => ()
  | .startSequence _ => ()
  | .stopSequence _ => ()
  | .tween t => ({ entity := resolve t.entity } : TweenProgress)
  | .choose _ yes no =>
    ({ yes := { children := freshChildren resolve yes }
       no := { children := freshChildren resolve no } } : ChoiceProgress _ _)
  | .await _ _ _ => ({} : AwaitProgress)
  | .bounded _ _ steps => ({ body := { children := freshChildren resolve steps } } :
      BoundedProgress _)
  | .retry _ steps => ({ body := { children := freshChildren resolve steps } } : RetryProgress _)
  | .group steps => ({ children := freshChildren resolve steps } : Track _)
  | .parallel _ steps => freshLanes resolve steps
  | .barrier _ _ => ({} : BarrierProgress)
  | .probe _ _ => (0 : Nat)
  | .custom _ _ _ _ => (0 : Nat)

def freshChildren (resolve : String → EntityId) : (l : List (Step κ)) → Children l
  | [] => ()
  | s :: rest => (s.fresh resolve, freshChildren resolve rest)

def freshLanes (resolve : String → EntityId) : (l : List (Step κ)) → Lanes l
  | [] => ()
  | s :: rest => ({ child := s.fresh resolve }, freshLanes resolve rest)

end

def pendingLanes : (l : List (Step κ)) → Lanes l → Nat
  | [], _ => 0
  | _ :: rest, (lane, lanes) => (if lane.settled.isNone then 1 else 0) + pendingLanes rest lanes

end Sequencer
