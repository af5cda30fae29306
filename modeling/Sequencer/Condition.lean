/-!
# Conditions

Questions about the world that are asked when a step needs an answer. A condition counts how
often it was asked, and its test may look at that count.
-/

set_option autoImplicit false

namespace Sequencer

inductive Test where
  | const (value : Bool)
  | flag (name : String)
  | counterAtLeast (name : String) (bound : Int)
  /-- Asked at least so many times, this time included. -/
  | pollsAtLeast (bound : Nat)
  /-- One answer for each time it is asked; the last one repeats. -/
  | script (answers : List Bool)
  | hasSystem (name : String)
  | hasEntity (label : String)
  | running (sequence : String)
  | paused (sequence : String)
  | barrierAtLeast (name : String) (bound : Nat)
  /-- Asked on behalf of the sequence of this name. -/
  | owner (name : String)
  | frameAtLeast (bound : Nat)
  | elapsedAtLeast (bound : Float)
  | timeScaleAbove (bound : Float32)
  | not (test : Test)
  | all (tests : List Test)
  | any (tests : List Test)
  | panic (message : String)

structure Condition where
  test : Test
  /-- The name under which its answers are shown. -/
  id : Option String := none

end Sequencer
