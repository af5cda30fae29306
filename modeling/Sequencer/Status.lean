/-!
# Outcomes of a frame

Every frame a step answers with a status. A step that runs out of time answers as its policy
says, and a list of steps says what it makes of a child that failed.
-/

set_option autoImplicit false

namespace Sequencer

inductive Status where
  | running
  | succeeded
  | failed
  deriving DecidableEq, Repr

namespace Status

def isRunning : Status → Bool
  | .running => true
  | _ => false

def isTerminal (s : Status) : Bool := !s.isRunning

def isSuccess : Status → Bool
  | .succeeded => true
  | _ => false

def isFailure : Status → Bool
  | .failed => true
  | _ => false

def ofOutcome (ok : Bool) : Status := if ok then .succeeded else .failed

def word : Status → String
  | .running => "Running"
  | .succeeded => "Succeeded"
  | .failed => "Failed"

theorem isTerminal_ofOutcome (ok : Bool) : (ofOutcome ok).isTerminal = true := by
  cases ok <;> rfl

end Status

inductive Expiry where
  | fail
  | skip
  | succeed
  deriving DecidableEq, Repr

def Expiry.outcome : Expiry → Status
  | .fail => .failed
  | .skip => .succeeded
  | .succeed => .succeeded

theorem Expiry.outcome_isTerminal (p : Expiry) : p.outcome.isTerminal = true := by
  cases p <;> rfl

inductive OnFailure where
  | advance
  | propagate
  deriving DecidableEq, Repr

/-- The rule by which a parallel step settles: `all` fails on the first failure and succeeds
once every child has, `any` succeeds on the first success and fails once every child has. -/
inductive Quorum where
  | all
  | any
  deriving DecidableEq, Repr

def Quorum.label : Quorum → String
  | .all => "parallel-all"
  | .any => "parallel-any"

end Sequencer
