import Sequencer.Proofs.Refusal

/-!
# Attempts to start a sequence

What an attempt does whose guard and validators have an answer: it is refused at once where the
sequence runs, by its guard, or by its validators, each of which is asked once.
-/

set_option autoImplicit false

namespace Sequencer

def Test.Answers (t : Test) : Prop :=
  ∀ s owner polls, ∃ answer, t.eval s owner polls = .ok answer

def Condition.holds (c : Condition) (s : Stage) : Bool :=
  match c.test.eval s "" 1 with
  | .ok answer => answer
  | .error _ => false

def failing (vs : List Validator) (s : Stage) : List String :=
  (vs.filter fun v => !v.condition.holds s).map (·.message)

def answers (k : Nat) (vs : List Validator) (s : Stage) : List (Nat × Bool) :=
  (vs.zipIdx k).map fun v => (v.2, v.1.condition.holds s)

def verdictNotes (id k : Nat) (vs : List Validator) (s : Stage) : List Entry :=
  (vs.zipIdx k).map fun v => .polled (.validator id v.2) v.1.condition.id (v.1.condition.holds s)

def guardNotes (id : Nat) (guard : Option Condition) (s : Stage) : List Entry :=
  guard.toList.map fun g => .polled (.guard id) g.id (g.holds s)

def Entry.verdict? (id : Nat) : Entry → Option (Nat × Bool)
  | .polled (.validator n i) _ answer => if n = id then some (i, answer) else none
  | _ => none

structure Sequence.Harmless (q : Sequence) : Prop where
  guard : ∀ g ∈ q.guard, g.test.Answers
  validators : ∀ v ∈ q.validators, v.condition.test.Answers

namespace Stage

def noting (l : List Entry) (s : Stage) : Stage := { s with journal := l.reverse ++ s.journal }

def verdicts (id : Nat) (s : Stage) : List (Nat × Bool) :=
  s.journal.reverse.filterMap (·.verdict? id)

def Admits (id : Nat) (s : Stage) : Prop :=
  (s.sequence id).running = false ∧ ∀ g ∈ (s.sequence id).guard, g.holds s = true

variable (s : Stage)

theorem noting_nil : s.noting [] = s := rfl

theorem noting_note (e : Entry) (l : List Entry) : (s.note e).noting l = s.noting (e :: l) := by
  simp [noting, note]

theorem noting_noting (l l' : List Entry) : (s.noting l).noting l' = s.noting (l ++ l') := by
  simp [noting]

@[simp] theorem sequence_noting (l : List Entry) (id : Nat) :
    (s.noting l).sequence id = s.sequence id := rfl

@[simp] theorem sequences_noting (l : List Entry) : (s.noting l).sequences = s.sequences := rfl

theorem verdicts_noting (l : List Entry) (id : Nat) :
    (s.noting l).verdicts id = s.verdicts id ++ l.filterMap (·.verdict? id) := by
  simp [verdicts, noting]

theorem verdicts_note (e : Entry) (id : Nat) :
    (s.note e).verdicts id = s.verdicts id ++ [e].filterMap (·.verdict? id) := by
  rw [← noting_nil (s.note e), noting_note, verdicts_noting]

theorem verdicts_of_eq {t : Stage} (h : t.journal = s.journal) (id : Nat) :
    t.verdicts id = s.verdicts id := by rw [verdicts, verdicts, h]

end Stage

abbrev sameView : Likeness :=
  .plain
    (fun s t => (t.settings = s.settings ∧ t.barriers = s.barriers ∧ t.host = s.host) ∧
      (∀ name, t.isRunning name = s.isRunning name) ∧ ∀ name, t.isPaused name = s.isPaused name)
    (fun h => h.1) (fun h => h.2.1) (fun h => h.2.2) (fun _ h => h)
    (fun _ h => ⟨⟨h.1.1, h.1.2.1, rfl⟩, h.2⟩)
    (fun barrier h => ⟨⟨h.1.1, congrArg (·.arrive barrier) h.1.2.1, h.1.2.2⟩, h.2⟩)

namespace Condition

variable (c : Condition) (s : Stage)

theorem holds_alike {s t : Stage} (h : sameView.related s t) : c.holds t = c.holds s := by
  rw [holds, holds, c.test.eval_alike sameView h]

@[simp] theorem holds_note (e : Entry) : c.holds (s.note e) = c.holds s :=
  c.holds_alike ⟨⟨rfl, rfl, rfl⟩, fun _ => rfl, fun _ => rfl⟩

@[simp] theorem holds_noting (l : List Entry) : c.holds (s.noting l) = c.holds s :=
  c.holds_alike ⟨⟨rfl, rfl, rfl⟩, fun _ => rfl, fun _ => rfl⟩

@[simp] theorem holds_checked (id : Nat) : c.holds (s.checked id) = c.holds s := by
  have hfield : ∀ g : Sequence → Bool, (∀ q, g { q with validators := [] } = g q) → ∀ name,
      (((s.checked id).named? name).map g).getD false = ((s.named? name).map g).getD false := by
    intro g hg name
    simp only [Stage.named?, Option.map_map]
    show ((s.find? name).map _).getD false = _
    exact congrArg (Option.getD · false)
      (congrArg (Option.map · (s.find? name)) (funext fun i => s.field_modify g hg id i))
  exact c.holds_alike ⟨⟨rfl, rfl, rfl⟩, hfield Sequence.running fun _ => rfl,
    hfield Sequence.paused fun _ => rfl⟩

end Condition

/-- Validators answer alike where every condition does. -/
theorem failing_eq {s t : Stage} (h : ∀ c : Condition, c.holds t = c.holds s)
    (vs : List Validator) : failing vs t = failing vs s := by
  simp only [failing, h]

theorem verdictNotes_eq {s t : Stage} (h : ∀ c : Condition, c.holds t = c.holds s) (id k : Nat)
    (vs : List Validator) : verdictNotes id k vs t = verdictNotes id k vs s := by
  simp only [verdictNotes, h]

theorem ask_answers {c : Condition} (h : c.test.Answers) (asker : Asker) (s : Stage) :
    ask asker "" 1 c s = (.ok (c.holds s), s.note (.polled asker c.id (c.holds s))) := by
  obtain ⟨answer, hanswer⟩ := h s "" 1
  simp only [ask_apply, Condition.holds, hanswer]

namespace Conductor

/-- Each validator is asked once, in order, whatever the others answer. -/
theorem failures_apply (id : Nat) {vs : List Validator}
    (h : ∀ v ∈ vs, v.condition.test.Answers) (k : Nat) (s : Stage) :
    failures id k vs s = (.ok (failing vs s), s.noting (verdictNotes id k vs s)) := by
  induction vs generalizing k s with
  | nil => rfl
  | cons v rest ih =>
    obtain ⟨hv, hrest⟩ := List.forall_mem_cons.mp h
    have hsame : ∀ e c, Condition.holds c (s.note e) = c.holds s := fun e c => c.holds_note s e
    simp only [failures, Act.bind_apply, ask_answers hv, ih hrest, failing_eq (hsame _),
      verdictNotes_eq (hsame _), Stage.noting_note]
    cases hholds : v.condition.holds s <;> simp [failing, verdictNotes, hholds] <;> rfl

theorem admitted_apply {id : Nat} {guard : Option Condition} (h : ∀ g ∈ guard, g.test.Answers)
    (s : Stage) :
    admitted id guard s =
      (.ok (guard.all (·.holds s)), s.noting (guardNotes id guard s)) := by
  cases guard with
  | none => rfl
  | some g => exact ask_answers (h g rfl) (.guard id) s

theorem launch_running {id : Nat} {s : Stage} (h : (s.sequence id).running = true) :
    launch id s = (.ok (.ok false),
      s.note (.notice (.alreadyRunning (s.sequence id).name))) := by
  simp only [launch, Act.bind_apply, Act.read, h, if_true]
  rfl

section

variable {id : Nat} {s : Stage} (hguard : ∀ g ∈ (s.sequence id).guard, g.test.Answers)

include hguard

/-- The guard has the sequence stay idle, and its validators are not asked. -/
theorem launch_unadmitted (hidle : (s.sequence id).running = false) (h : ¬ s.Admits id) :
    launch id s = (.ok (.ok false),
      (s.noting (guardNotes id (s.sequence id).guard s)).note
        (.notice (.refusedByGuard (s.sequence id).name))) := by
  have hno : (s.sequence id).guard.all (·.holds s) = false := by
    rw [← Bool.not_eq_true]
    intro hall
    refine h ⟨hidle, fun g hg => ?_⟩
    rw [Option.mem_def.mp hg] at hall
    exact hall
  simp only [launch, Act.bind_apply, Act.read, hidle, Bool.false_eq_true, if_false,
    admitted_apply hguard, hno, Bool.not_false, if_true]
  rfl

/-- The validators are used up, and asked, and if none of them answers no the sequence runs. -/
theorem launch_admitted (hvalidators : ∀ v ∈ (s.sequence id).validators, v.condition.test.Answers)
    (h : s.Admits id) :
    let q := s.sequence id
    let u := (s.checked id).noting
      (guardNotes id q.guard s ++ verdictNotes id 0 q.validators s)
    launch id s =
      if failing q.validators s = [] then
        (.ok (.ok true), (u.modify id Sequence.begun).noting
          [.notice (.started q.name q.stepCount), .began id, .moved id .started 0])
      else (.ok (.error (.invalid q.name (failing q.validators s))), u) := by
  have hyes : (s.sequence id).guard.all (·.holds s) = true := by
    cases hg : (s.sequence id).guard with
    | none => rfl
    | some g => exact h.2 g hg
  intro q u
  have hsame : ∀ c : Condition, c.holds ((s.noting (guardNotes id q.guard s)).checked id) =
      c.holds s := fun c => by rw [c.holds_checked, c.holds_noting]
  have hfailures : failures id 0 q.validators ((s.noting (guardNotes id q.guard s)).checked id) =
      (.ok (failing q.validators s), u) := by
    rw [failures_apply id hvalidators, failing_eq hsame, verdictNotes_eq hsame]
    exact congrArg _ (Stage.noting_noting (s.checked id) _ _)
  have htry : launch id s = tryOut id q (s.noting (guardNotes id q.guard s)) := by
    simp only [launch, Act.bind_apply, Act.read, h.1, Bool.false_eq_true, if_false,
      admitted_apply hguard, hyes, Bool.not_true]
    rfl
  rw [htry]
  simp only [tryOut, Act.bind_apply, Act.change]
  rw [← Stage.checked, hfailures]
  simp only [List.isEmpty_iff]
  split
  · rfl
  · rfl

end

end Conductor

end Sequencer
