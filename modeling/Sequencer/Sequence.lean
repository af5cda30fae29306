import Sequencer.Journal
import Sequencer.Progress

/-!
# Sequences

A named list of steps with a cursor. While one of its steps is being called the sequence is
ticking; its cursor and its flags can change meanwhile, its steps cannot. The generation grows
whenever the cursor is moved from outside a tick.
-/

set_option autoImplicit false

namespace Sequencer

/-- A step together with its progress. -/
structure Part where
  step : Step Command
  progress : step.Progress

def Part.build (resolve : String → EntityId) (step : Step Command) : Part :=
  ⟨step, step.fresh resolve⟩

structure Sequence where
  name : String := ""
  parts : List Part := []
  guard : Option Condition := none
  /-- The checks that still wait for the first start. -/
  validators : List Validator := []
  onStarted : Option (List Command) := none
  onCompleted : Option (List Command) := none
  onStopped : Option (List Command) := none
  current : Nat := 0
  /-- Whether the step at the cursor was entered. -/
  entered : Bool := false
  running : Bool := false
  paused : Bool := false
  generation : Nat := 0
  ticking : Bool := false

namespace Sequence

def build (resolve : String → EntityId) (o : Outline Command) : Sequence :=
  { name := o.name
    parts := o.steps.map (Part.build resolve)
    guard := o.guards.getLast?
    validators := o.validators
    onStarted := o.onStarted
    onCompleted := o.onCompleted
    onStopped := o.onStopped }

def stepCount (s : Sequence) : Nat := s.parts.length

def info (s : Sequence) : SequenceInfo :=
  { name := s.name, stepCount := s.stepCount, current := s.current, running := s.running,
    paused := s.paused, pending := !s.validators.isEmpty }

def bookmark (s : Sequence) : Bookmark := ⟨s.name, s.current⟩

def rewound (s : Sequence) : Sequence :=
  { s with current := 0, entered := false, generation := s.generation + 1 }

def begun (s : Sequence) : Sequence := { s with running := true }.rewound

def resumed (index : Nat) (s : Sequence) : Sequence :=
  { s with
    running := true
    current := min index s.stepCount
    entered := false
    generation := s.generation + 1 }

def ended (s : Sequence) : Sequence := { s with running := false, entered := false }

def advanced (index : Nat) (s : Sequence) : Sequence :=
  { s with entered := false, current := index + 1 }

def withPart (index : Nat) (part : Part) (s : Sequence) : Sequence :=
  { s with parts := s.parts.set index part }

def hook (s : Sequence) : Hook → Option (List Command)
  | .started => s.onStarted
  | .completed => s.onCompleted
  | .stopped => s.onStopped

theorem stepCount_withPart (index : Nat) (part : Part) (s : Sequence) :
    (s.withPart index part).stepCount = s.stepCount := by
  simp [withPart, stepCount]

end Sequence

end Sequencer
