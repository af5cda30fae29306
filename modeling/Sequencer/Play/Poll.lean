import Sequencer.Play

/-!
# Asking conditions

A test is evaluated against the stage and changes nothing. It may panic instead of answering. What
a step asks may have code behind it, which is carried out first.
-/

set_option autoImplicit false

namespace Sequencer

def scripted {α : Type} (fallback : α) (script : List α) (n : Nat) : α :=
  script[min n (script.length - 1)]?.getD fallback

mutual

def Test.eval (s : Stage) (owner : String) (polls : Nat) : Test → Except Halt Bool
  | .const value => .ok value
  | .flag name => .ok ((s.host.flags.get? name).getD false)
  | .counterAtLeast name bound => .ok (bound ≤ (s.host.counters.get? name).getD 0)
  | .pollsAtLeast bound => .ok (bound ≤ polls)
  | .script answers => .ok (scripted false answers (polls - 1))
  | .hasSystem name => .ok (s.host.scene.hasSystem name)
  | .hasEntity label => .ok (s.host.scene.hasEntity (s.host.resolve label))
  | .running name => .ok (s.isRunning name)
  | .paused name => .ok (s.isPaused name)
  | .barrierAtLeast name bound => .ok (bound ≤ (s.barriers.count name).toNat)
  | .owner name => .ok (owner = name)
  | .frameAtLeast bound => .ok (bound ≤ s.host.engine.frame)
  | .elapsedAtLeast bound => .ok (bound ≤ s.host.engine.elapsed)
  | .timeScaleAbove bound => .ok (bound < s.host.engine.timeScale)
  | .not test =>
    match test.eval s owner polls with
    | .ok b => .ok !b
    | .error h => .error h
  | .all tests => evalAll s owner polls tests
  | .any tests => evalAny s owner polls tests
  | .panic message => .error (.panic message)

def evalAll (s : Stage) (owner : String) (polls : Nat) : List Test → Except Halt Bool
  | [] => .ok true
  | t :: rest =>
    match t.eval s owner polls with
    | .ok true => evalAll s owner polls rest
    | r => r

def evalAny (s : Stage) (owner : String) (polls : Nat) : List Test → Except Halt Bool
  | [] => .ok false
  | t :: rest =>
    match t.eval s owner polls with
    | .ok false => evalAny s owner polls rest
    | r => r

end

def ask (asker : Asker) (owner : String) (polls : Nat) (c : Condition) : Act Bool := do
  match ← Act.read (c.test.eval · owner polls) with
  | .ok answer =>
    .note (.polled asker c.id answer)
    return answer
  | .error h => .halt h

/-- Carries out the code behind a question, and then asks its condition. -/
def inquire (run : Runner) (asker : Asker) (owner : String) (polls : Nat)
    (q : Question Command) : Act Bool := do
  performAll run q.code
  ask asker owner polls q.toCondition

end Sequencer
