import Sequencer.Proofs.ActiveList

/-!
# The order of the active list

Whoever joins the active list joins it at its end, and whoever leaves it leaves the others as
they stand. So the list is in the order in which its members joined it, whatever callbacks do and
wherever a run halts.
-/

set_option autoImplicit false

namespace Sequencer

/-- `Rolls l kept joined`: what became of the list `l`. Those in `kept` never left it; those in
`joined` joined it since, in this order, and have not left again. -/
inductive Rolls (l : List Nat) : List Nat → List Nat → Prop
  | refl : Rolls l l []
  | join {kept joined : List Nat} (id : Nat) : Rolls l kept joined → id ∉ kept ++ joined →
      Rolls l kept (joined ++ [id])
  | leave {kept joined : List Nat} (id : Nat) : Rolls l kept joined →
      Rolls l (kept.filter (· ≠ id)) (joined.filter (· ≠ id))

namespace Rolls

variable {l kept joined kept' joined' : List Nat}

theorem nodup (h : Rolls l kept joined) (hl : l.Nodup) : (kept ++ joined).Nodup := by
  induction h with
  | refl => simpa using hl
  | join id _ hid ih =>
    rw [← List.append_assoc]
    refine List.nodup_append.mpr ⟨ih, by simp, fun i hi j hj => ?_⟩
    rw [List.mem_singleton.mp hj]
    rintro rfl
    exact hid hi
  | leave id _ ih =>
    rw [← List.filter_append]
    exact ih.filter _

/-- What became of what became of a list. Of those that had joined, some have left since. -/
theorem trans (h : Rolls l kept joined) (h' : Rolls (kept ++ joined) kept' joined') :
    ∃ kept₁ joined₁, kept' = kept₁ ++ joined₁ ∧ Rolls l kept₁ (joined₁ ++ joined') := by
  induction h' with
  | refl => exact ⟨kept, joined, rfl, by simpa using h⟩
  | join id _ hid ih =>
    obtain ⟨kept₁, joined₁, rfl, hr⟩ := ih
    rw [List.append_assoc] at hid
    exact ⟨kept₁, joined₁, rfl, by simpa using hr.join id hid⟩
  | leave id _ ih =>
    obtain ⟨kept₁, joined₁, rfl, hr⟩ := ih
    exact ⟨_, _, List.filter_append .., by simpa using hr.leave id⟩

end Rolls

def Stage.RollsTo (s t : Stage) : Prop :=
  ∃ kept joined, Rolls s.active kept joined ∧ t.active = kept ++ joined

namespace Stage.RollsTo

variable {s t u : Stage}

theorem of_eq (h : t.active = s.active) : s.RollsTo t :=
  ⟨s.active, [], .refl, by rw [h, List.append_nil]⟩

theorem trans (h : s.RollsTo t) (h' : t.RollsTo u) : s.RollsTo u := by
  obtain ⟨kept, joined, hr, ha⟩ := h
  obtain ⟨kept', joined', hr', ha'⟩ := h'
  rw [ha] at hr'
  obtain ⟨kept₁, joined₁, rfl, hr''⟩ := hr.trans hr'
  exact ⟨kept₁, joined₁ ++ joined', hr'', by rw [ha', List.append_assoc]⟩

theorem enlist (id : Nat) (h : t.active = (s.enlist id).active) : s.RollsTo t := by
  rw [s.active_enlist] at h
  by_cases hid : id ∈ s.active
  · exact of_eq (by rw [h, if_pos hid])
  · refine ⟨s.active, [] ++ [id], Rolls.refl.join id (by simpa using hid), ?_⟩
    rw [h, if_neg hid]
    rfl

theorem delist (id : Nat) (h : t.active = s.active) : s.RollsTo (t.delist id) := by
  refine ⟨_, _, Rolls.refl.leave id, ?_⟩
  rw [List.filter_nil, List.append_nil, ← h]
  rfl

theorem nodup (h : s.RollsTo t) (hs : s.active.Nodup) : t.active.Nodup := by
  obtain ⟨kept, joined, hr, ha⟩ := h
  rw [ha]
  exact hr.nodup hs

end Stage.RollsTo

theorem Incident.rolls {own : Site → Prop} {s t : Stage} (h : Incident own s t) : s.RollsTo t := by
  cases h with
  | aside h => exact .of_eq h.active
  | @started name id n _ _ =>
    refine .enlist id ?_
    rw [Stage.starting, Stage.active_notify, Stage.active_enlist, s.active_enlist]
    rfl
  | @restored name id index _ =>
    refine .enlist id ?_
    rw [Stage.restoring, Stage.active_enlist, s.active_enlist]
    rfl
  | dropped id => exact .delist id rfl
  | delisted id => exact .delist id rfl
  | swept id =>
    unfold Stage.sweep
    split
    · exact .of_eq rfl
    · exact .delist id rfl
  | _ => exact .of_eq rfl

/-- Along every course members join at the end and leave the others in order. -/
theorem Course.rolls {own : Site → Prop} {calm : Bool} {s t : Stage} (h : Course own calm s t) :
    s.RollsTo t := by
  induction h with
  | single h => exact h.rolls
  | halt _ ih => exact ih
  | trans _ _ ih ih' => exact ih.trans ih'
  | widen _ _ ih => exact ih
  | @driven own run dt s t id part r p _ _ ih =>
    have hlent : s.RollsTo t := (Stage.RollsTo.of_eq (s := s) (t := s.lending id) rfl).trans ih
    refine hlent.trans (.of_eq ?_)
    cases r with
    | error e => rfl
    | ok status =>
      simp only [Stage.afterPlay, Stage.advancing]
      split <;> rfl

theorem Session.rolls {calm : Bool} {s t : Stage} (h : Session calm s t) : s.RollsTo t :=
  h.leads.course.rolls

end Sequencer
