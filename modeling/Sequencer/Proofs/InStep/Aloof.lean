import Mathlib.Data.List.Basic
import Sequencer.Proofs.Likeness.Disguise

/-!
# Steps that are aloof from their own sequence

A list of steps can stand in for a sequence: what is noted of the steps is then told of the children
of the list. Steps that do not operate on their own sequence cannot tell the difference, whatever
stands in the place of the sequence meanwhile, as long as it has the name and the flags. Nor can
they read in the journal what other steps have answered.
-/

set_option autoImplicit false

namespace Sequencer

def Site.rehome (id : Nat) : Site → (σ : Site) → Site
  | .top i n, σ => if i = id then .child σ n else .top i n
  | .held slot, _ => .held slot
  | .child τ i, σ => .child (τ.rehome id σ) i
  | .otherwise τ i, σ => .otherwise (τ.rehome id σ) i

def Notice.rehome (name : String) : Notice → Notice
  | .entered .sequence owner label index =>
    .entered (if owner = name then .flow else .sequence) owner label index
  | .exited .sequence owner label index status =>
    .exited (if owner = name then .flow else .sequence) owner label index status
  | n => n

def Entry.rehome (id : Nat) (name : String) (σ : Site) : Entry → Entry
  | .notice n => .notice (n.rehome name)
  | .polled (.step τ) c answer => .polled (.step (τ.rehome id σ)) c answer
  | .called τ c => .called (τ.rehome id σ) c
  | .returned τ r => .returned (τ.rehome id σ) r
  | e => e

theorem Notice.rehome_common (name : String) {n : Notice} (hn : n.isCommon = true) :
    n.rehome name = n := by
  unfold Notice.rehome
  split <;> simp_all [Notice.isCommon]

theorem Entry.rehome_common (id : Nat) (name : String) (σ : Site) {e : Entry}
    (he : e.isCommon = true) : e.rehome id name σ = e := by
  cases e with
  | notice n => exact congrArg Entry.notice (Notice.rehome_common name he)
  | polled asker c answer => exact absurd he (by simp [Entry.isCommon])
  | called σ c => exact absurd he (by simp [Entry.isCommon])
  | returned σ r => exact absurd he (by simp [Entry.isCommon])
  | _ => rfl

def Disguise.rehomed (id : Nat) (name : String) (σ : Site) (v : Sequence) : Disguise id where
  look _ := v
  site τ := τ.rehome id σ
  entry := Entry.rehome id name σ
  child _ _ := rfl
  otherwise _ _ := rfl
  common _ := Entry.rehome_common id name σ
  polled _ _ _ := rfl
  called _ _ := rfl
  returned _ _ := rfl

section

variable {id : Nat} {name : String} (M : Milieu id name)

/-- The act does not operate on the sequence: whatever is in its place with its name and its flags,
the act has the same result and the same effects, leaves what is there alone, and does not look at
the journal. -/
def Act.Aloof {α : Type} (x : Act α) : Prop := ∀ σ v, Act.Masks (.rehomed id name σ v) M x x

/-- The user code in a step, and what the step does to other sequences, does not operate on the
sequence the step belongs to. -/
abbrev Step.Aloof (run : Runner) (s : Step Command) : Prop :=
  s.UserCode (fun _ x y => x = y ∧ x.Aloof M) run run name

variable {M} {run : Runner}

theorem performAll_aloof {commands : List Command} (h : ∀ c ∈ commands, (run c).Aloof M) :
    (performAll run commands).Aloof M := by
  intro σ v
  exact .of_alike fun _ hq j₀ j => performAll_alike fun c hc => (h c hc σ v).alike hq j₀ j

/-- An edit of the host's own state operates on no sequence. -/
theorem Change.apply_aloof (c : Change) : c.apply.Aloof M :=
  fun _ _ => .of_alike fun _ _ _ _ => c.apply_alike

abbrev Milieu.rehomed (M : Milieu id name) (σ : Site) {q v : Sequence} (hq : v.Resembles q)
    (j₀ j : List Entry) : Likeness :=
  (Disguise.rehomed id name σ v).likeness (q := q) M hq j₀ j

theorem Step.Aloof.alike {s : Step Command} (h : s.Aloof M run) (σ : Site) {q v : Sequence}
    (hq : v.Resembles q) (j₀ j : List Entry) : s.Alike (M.rehomed σ hq j₀ j) run run name := by
  refine Step.UserCode.mono ?_ s h
  rintro α x _ ⟨rfl, hx⟩
  exact (hx σ v).alike hq j₀ j

end

/-! Stages whose journals tell of the same calls -/

def Entry.call? : Entry → Option (Site × Call)
  | .called σ c => some (σ, c)
  | _ => none

structure Stage.SameCalls (s t : Stage) : Prop where
  stage : t = { s with journal := t.journal }
  calls : t.journal.filterMap Entry.call? = s.journal.filterMap Entry.call?

namespace Stage.SameCalls

variable {s t : Stage}

theorem note (h : s.SameCalls t) {e e' : Entry} (he : e'.call? = e.call?) :
    (s.note e).SameCalls (t.note e') := by
  refine ⟨?_, ?_⟩
  · rw [h.stage]
    rfl
  · show (e' :: t.journal).filterMap Entry.call? = (e :: s.journal).filterMap Entry.call?
    simp only [List.filterMap_cons, he, h.calls]

theorem modify (h : s.SameCalls t) (id : Nat) (f : Sequence → Sequence) :
    (s.modify id f).SameCalls (t.modify id f) := by
  refine ⟨?_, h.calls⟩
  rw [h.stage]
  rfl

theorem hosting (h : s.SameCalls t) (host : Host) :
    Stage.SameCalls { s with host := host } { t with host := host } := by
  rw [h.stage]
  exact ⟨rfl, h.calls⟩

theorem arrive (h : s.SameCalls t) (barrier : String) :
    (s.arrive barrier).SameCalls (t.arrive barrier) := by
  rw [h.stage]
  exact ⟨rfl, h.calls⟩

theorem sequence (h : s.SameCalls t) (id : Nat) : t.sequence id = s.sequence id := by
  rw [h.stage]
  rfl

end Stage.SameCalls

section

variable {id : Nat} {name : String} (M : Milieu id name)

def Milieu.sameCalls : Likeness :=
  .plain (fun s t => M.world s ∧ s.SameCalls t)
    (fun h => by rw [h.2.stage]; exact ⟨rfl, rfl, rfl⟩)
    (fun h _ => by rw [h.2.stage]; rfl)
    (fun h _ => by rw [h.2.stage]; rfl)
    (fun _ h => ⟨M.elsewhere _ _ h.1 (.note id _ _), h.2.note rfl⟩)
    (fun host h => ⟨M.elsewhere _ _ h.1 (.host id _ host), h.2.hosting host⟩)
    (fun barrier h => ⟨M.elsewhere _ _ h.1 (.arrive id _ barrier), h.2.arrive barrier⟩)

variable {M} {run : Runner}

theorem Stage.modify_self (s : Stage) (id : Nat) : s.modify id (fun _ => s.sequence id) = s := by
  have hsame : s.sequences.modify id (fun _ => s.sequence id) = s.sequences := by
    apply List.ext_getElem?
    intro i
    rw [List.getElem?_modify]
    by_cases hi : id = i
    · subst hi
      rw [Stage.sequence]
      cases s.sequences[id]? <;> simp
    · simp [hi]
  rw [Stage.modify, hsame]

/-- A site that is the same wherever the list stands does not belong to the sequence. -/
theorem Site.rehome_eq_self {id : Nat} {σ σ' : Site} (hσ : σ ≠ σ') : {τ : Site} →
    τ.rehome id σ = τ.rehome id σ' → τ.rehome id σ = τ
  | .top i n, h => by
    by_cases hi : i = id
    · simp only [rehome, if_pos hi, Site.child.injEq, and_true] at h
      exact absurd h hσ
    · exact if_neg hi
  | .held _, _ => rfl
  | .child τ i, h => by
    simp only [rehome, Site.child.injEq, and_true] at h ⊢
    exact rehome_eq_self hσ h
  | .otherwise τ i, h => by
    simp only [rehome, Site.otherwise.injEq, and_true] at h ⊢
    exact rehome_eq_self hσ h

theorem Entry.call?_rehome {id : Nat} {name : String} {σ σ' : Site} (hσ : σ ≠ σ') {e : Entry}
    (h : e.rehome id name σ = e.rehome id name σ') : (e.rehome id name σ).call? = e.call? := by
  cases e with
  | called τ c =>
    have hτ : τ.rehome id σ = τ.rehome id σ' := (Entry.called.inj h).1
    simp only [rehome, call?, Site.rehome_eq_self hσ hτ]
  | polled asker c answer => cases asker <;> rfl
  | _ => rfl

/-- What is aloof from a sequence calls none of its steps, so its calls are told the same wherever
the list stands. -/
theorem Act.Aloof.sameCalls {α : Type} {x : Act α} (h : x.Aloof M) :
    Act.Alike M.sameCalls x x := by
  rintro s t ⟨hs, ht⟩
  have hlook : ∀ σ, (Disguise.rehomed id name σ (s.sequence id)).look (s.sequence id) =
      s.sequence id := fun _ => rfl
  have hmasked : ∀ (u : Stage) σ j, u.sequence id = s.sequence id →
      u.masked (.rehomed id name σ (s.sequence id)) j = { u with journal := j } := by
    intro u σ j hu
    have hself := u.modify_self id
    rw [hu] at hself
    exact congrArg (fun u : Stage => { u with journal := j }) hself
  have hrun : ∀ σ, ∃ l, (x s).2.journal = l ++ s.journal ∧ M.world (x s).2 ∧
      x t = ((x s).1, { (x s).2 with
        journal := l.map (Entry.rehome id name σ) ++ t.journal }) := by
    intro σ
    obtain ⟨l, hl, hs', hkept, hx⟩ := h σ (s.sequence id) s hs ⟨rfl, rfl, rfl⟩
    have ht' := hx t.journal
    rw [hmasked s σ t.journal rfl, ← ht.stage, hmasked _ σ _ hkept] at ht'
    exact ⟨l, hl, hs', ht'⟩
  obtain ⟨l, hl, hs', hx⟩ := hrun (.held "")
  obtain ⟨l', hl', -, hx'⟩ := hrun (.top 0 0)
  obtain rfl : l' = l := List.append_cancel_right (hl'.symm.trans hl)
  have hentries : l'.map (Entry.rehome id name (.held "")) =
      l'.map (Entry.rehome id name (.top 0 0)) := by
    have hj := congrArg (fun r => r.2.journal) (hx.symm.trans hx')
    exact List.append_cancel_right hj
  have hcalls : (l'.map (Entry.rehome id name (.held ""))).filterMap Entry.call? =
      l'.filterMap Entry.call? := by
    rw [List.filterMap_map]
    apply List.filterMap_congr
    intro e he
    have hne : Site.held "" ≠ .top 0 0 := nofun
    exact Entry.call?_rehome hne (List.map_inj_left.mp hentries e he)
  rw [hx]
  refine ⟨rfl, hs', rfl, ?_⟩
  show (_ ++ t.journal).filterMap Entry.call? = _
  rw [List.filterMap_append, hcalls, ht.calls, hl, List.filterMap_append]

theorem Step.Aloof.sameCalls {s : Step Command} (h : s.Aloof M run) :
    s.Alike M.sameCalls run run name := by
  refine Step.UserCode.mono ?_ s h
  rintro α x _ ⟨rfl, hx⟩
  exact hx.sameCalls

end

end Sequencer
