import Sequencer.Proofs.LeftAlone
import Sequencer.Proofs.Upkeep
import Sequencer.Proofs.Validators.Attempts

/-!
# What was done to start sequences

Of all that happens in a session the enrolments of sequences and the attempts to start them are
told apart from the rest, which asks no guard and no validator and leaves both where they are.
-/

set_option autoImplicit false

namespace Sequencer

structure Stage.Untried (s t : Stage) : Prop where
  length : t.sequences.length = s.sequences.length
  name : ∀ id, (t.sequence id).name = (s.sequence id).name
  guard : ∀ id, (t.sequence id).guard = (s.sequence id).guard
  validators : ∀ id, (t.sequence id).validators = (s.sequence id).validators
  entries : OnlyAdds (fun e => e.isTrial = false) s t

namespace Stage.Untried

variable {s t u : Stage}

theorem same (hq : t.sequences = s.sequences) (hj : t.journal = s.journal) : s.Untried t := by
  have hsequence : ∀ id, t.sequence id = s.sequence id := fun id => by
    rw [Stage.sequence, Stage.sequence, hq]
  exact ⟨by rw [hq], fun id => by rw [hsequence], fun id => by rw [hsequence],
    fun id => by rw [hsequence], .of_same hj⟩

theorem refl (s : Stage) : s.Untried s := same rfl rfl

theorem trans (h : s.Untried t) (h' : t.Untried u) : s.Untried u :=
  ⟨h'.length.trans h.length, fun id => (h'.name id).trans (h.name id),
    fun id => (h'.guard id).trans (h.guard id),
    fun id => (h'.validators id).trans (h.validators id), h.entries.trans h'.entries⟩

theorem note (s : Stage) {e : Entry} (he : e.isTrial = false) : s.Untried (s.note e) :=
  ⟨rfl, fun _ => rfl, fun _ => rfl, fun _ => rfl, [e], rfl, by simpa using he⟩

theorem modify (s : Stage) (id : Nat) {f : Sequence → Sequence} (hname : ∀ q, (f q).name = q.name)
    (hguard : ∀ q, (f q).guard = q.guard) (hvalidators : ∀ q, (f q).validators = q.validators) :
    s.Untried (s.modify id f) :=
  ⟨s.length_modify id f, s.field_modify _ hname id, s.field_modify _ hguard id,
    s.field_modify _ hvalidators id, .of_same rfl⟩

theorem verdicts (h : s.Untried t) (id : Nat) : t.verdicts id = s.verdicts id := by
  obtain ⟨l, hl, htrial⟩ := h.entries
  have hnone : l.reverse.filterMap (·.verdict? id) = [] := by
    rw [List.filterMap_eq_nil_iff]
    intro e he
    have := htrial e (List.mem_reverse.mp he)
    cases e with
    | polled asker _ _ => cases asker <;> first | rfl | cases this
    | _ => rfl
  rw [Stage.verdicts, Stage.verdicts, hl, List.reverse_append, List.filterMap_append, hnone,
    List.append_nil]

end Stage.Untried

structure Stage.TriesOnly (id : Nat) (s t : Stage) : Prop where
  length : t.sequences.length = s.sequences.length
  sequence : ∀ i, i ≠ id → t.sequence i = s.sequence i
  verdicts : ∀ i, i ≠ id → t.verdicts i = s.verdicts i

namespace Stage.TriesOnly

variable {id : Nat} {s t : Stage}

theorem refl (id : Nat) (s : Stage) : s.TriesOnly id s := ⟨rfl, fun _ _ => rfl, fun _ _ => rfl⟩

theorem note (h : s.TriesOnly id t) {e : Entry} (he : ∀ i, i ≠ id → e.verdict? i = none) :
    s.TriesOnly id (t.note e) :=
  ⟨h.length, h.sequence, fun i hi => by simp [verdicts_note, he i hi, h.verdicts i hi]⟩

theorem modify (h : s.TriesOnly id t) (f : Sequence → Sequence) : s.TriesOnly id (t.modify id f) :=
  ⟨(t.length_modify id f).trans h.length,
    fun i hi => (t.sequence_modify_ne f hi).trans (h.sequence i hi),
    fun i hi => (t.verdicts_of_eq rfl i).trans (h.verdicts i hi)⟩

end Stage.TriesOnly

namespace Conductor

variable {id : Nat} {s : Stage}

theorem ask_triesOnly {asker : Asker} (h : ∀ c answer i, i ≠ id →
      (Entry.polled asker c answer).verdict? i = none) (owner : String) (polls : Nat)
    (c : Condition) : (ask asker owner polls c).Upholds (s.TriesOnly id) := by
  refine .bind (.read _) fun r => ?_
  cases r with
  | ok answer => exact .bind (fun _ ht => ht.note (h c.id answer)) fun _ => .pure answer
  | error e => exact .halt e

theorem failures_triesOnly (k : Nat) (vs : List Validator) :
    (failures id k vs).Upholds (s.TriesOnly id) := by
  induction vs generalizing k with
  | nil => exact .pure []
  | cons v rest ih =>
    exact .bind (ask_triesOnly (fun _ _ _ hi => by simp [Entry.verdict?, hi.symm]) _ _ _) fun _ =>
      .bind (ih (k + 1)) fun _ => .pure _

/-- An attempt to start one sequence does nothing to the others, also when it halts. -/
theorem launch_triesOnly (id : Nat) (s : Stage) : s.TriesOnly id (launch id s).2 := by
  have hnote : ∀ e : Entry, (∀ i, i ≠ id → e.verdict? i = none) →
      (Act.note e).Upholds (s.TriesOnly id) := fun e he _ ht => ht.note he
  have hmodify : ∀ f : Sequence → Sequence,
      (Act.change (·.modify id f)).Upholds (s.TriesOnly id) := fun f _ ht => ht.modify f
  have hadmitted : ∀ guard, (admitted id guard).Upholds (s.TriesOnly id) := by
    intro guard
    cases guard with
    | none => exact .pure true
    | some g => exact ask_triesOnly (fun _ _ _ _ => rfl) _ _ g
  have hlaunch : (launch id).Upholds (s.TriesOnly id) := by
    refine .bind (.read _) fun q => .ite (.bind (hnote _ fun _ _ => rfl) fun _ => .pure _) ?_
    refine .bind (hadmitted q.guard) fun _ =>
      .ite (.bind (hnote _ fun _ _ => rfl) fun _ => .pure _) ?_
    refine .bind (hmodify _) fun _ => .bind (failures_triesOnly 0 q.validators) fun failed =>
      .ite ?_ (.pure _)
    exact .bind (hmodify _) fun _ => .bind (hnote _ fun _ _ => rfl) fun _ =>
      .bind (hnote _ fun _ _ => rfl) fun _ => .bind (hnote _ fun _ _ => rfl) fun _ => .pure _
  exact hlaunch s (.refl id s)

end Conductor

inductive Deed where
  | enrolled (q : Sequence)
  | tried (id : Nat)

def Deed.done : Deed → Stage → Stage
  | .enrolled q, s => s.enroll q
  | .tried id, s => (Conductor.launch id s).2

/-- The deeds between two stages in their order, each with the stage on which it was done. -/
inductive Deeds : Stage → List (Deed × Stage) → Stage → Prop
  | rest {s t : Stage} : s.Untried t → Deeds s [] t
  | deed {s u t : Stage} {l : List (Deed × Stage)} (d : Deed) : s.Untried u →
      Deeds (d.done u) l t → Deeds s ((d, u) :: l) t

namespace Deeds

variable {s t u : Stage} {l l' : List (Deed × Stage)}

theorem after (h : Deeds u l t) (hs : s.Untried u) : Deeds s l t := by
  cases h with
  | rest h => exact .rest (hs.trans h)
  | deed d h hlater => exact .deed d (hs.trans h) hlater

theorem append (h : Deeds s l u) (h' : Deeds u l' t) : Deeds s (l ++ l') t := by
  induction h with
  | rest h => exact h'.after h
  | deed d h _ ih => exact .deed d h (ih h')

theorem before (h : Deeds s l t) (ht : t.Untried u) : Deeds s l u := by
  simpa using h.append (.rest ht)

theorem split {before after : List (Deed × Stage)} {d : Deed}
    (h : Deeds s (before ++ (d, u) :: after) t) :
    Deeds s before u ∧ Deeds (d.done u) after t := by
  induction before generalizing s with
  | nil =>
    cases h with
    | deed _ h hlater => exact ⟨.rest h, hlater⟩
  | cons _ _ ih =>
    cases h with
    | deed d h hlater => exact ⟨.deed d h (ih hlater).1, (ih hlater).2⟩

/-- A number that was given to a sequence was given by an enrolment. -/
theorem enrolled (h : Deeds s l t) {id : Nat} (hs : s.sequences.length ≤ id)
    (ht : id < t.sequences.length) :
    ∃ before q u after, l = before ++ (.enrolled q, u) :: after ∧ u.sequences.length = id := by
  induction h with
  | rest h => rw [h.length] at ht; omega
  | @deed s u t l d h hlater ih =>
    have hu := h.length
    cases d with
    | enrolled q =>
      rcases Nat.eq_or_lt_of_le hs with heq | hlt
      · exact ⟨[], q, u, l, rfl, hu.trans heq⟩
      · have hdone : ((Deed.enrolled q).done u).sequences.length ≤ id := by
          simp only [Deed.done, Stage.length_enroll]
          omega
        obtain ⟨before, q', u', after, hl, hid⟩ := ih hdone ht
        exact ⟨(.enrolled q, u) :: before, q', u', after, by rw [hl]; rfl, hid⟩
    | tried i =>
      have hdone : ((Deed.tried i).done u).sequences.length ≤ id := by
        rw [Deed.done, (Conductor.launch_triesOnly i u).length]
        omega
      obtain ⟨before, q', u', after, hl, hid⟩ := ih hdone ht
      exact ⟨(.tried i, u) :: before, q', u', after, by rw [hl]; rfl, hid⟩

end Deeds

def doing (s : Stage) : Upkeep where
  holds t := ∃ l, Deeds s l t
  note h he := h.imp fun _ h => h.before (.note _ he)
  modify id _ h hf := h.imp fun _ h => h.before (.modify _ id hf.name hf.guard hf.validators)
  same h hq _ hj := h.imp fun _ h => h.before (.same hq hj)
  unregister _ h := h.imp fun _ h => h.before (.same rfl rfl)
  enroll {t} q h := by
    obtain ⟨l, h⟩ := h
    exact ⟨_, h.append (.deed (.enrolled q) (.refl t) (.rest (.refl _)))⟩
  launch {t} id h := by
    obtain ⟨l, h⟩ := h
    exact ⟨_, h.append (.deed (.tried id) (.refl t) (.rest (.refl _)))⟩

theorem Conductor.setPaused_doing (s : Stage) (name : String) (f : Bool → Bool) :
    (setPaused name f).Upholds (doing s).holds := by
  intro t h
  cases hi : t.find? name with
  | none =>
    rw [setPaused, onNamed_none hi]
    exact (doing s).note h rfl
  | some id =>
    rw [setPaused, onNamed_some hi]
    exact h.imp fun _ h => h.before (.modify t id (fun _ => rfl) (fun _ => rfl) fun _ => rfl)

/-- Whatever a session does is a series of deeds. -/
theorem Session.deeds {calm : Bool} {s t : Stage} (h : Session calm s t) : ∃ l, Deeds s l t :=
  h.upholds (I := doing s) (Conductor.setPaused_doing s) ⟨[], .rest (.refl s)⟩

end Sequencer
