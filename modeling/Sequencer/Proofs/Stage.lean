import Sequencer.Play

/-!
# What the operations on the stage do to what is seen of it

Each operation on the stage changes one of its parts. The equations here say what it does to the
sequence of a number, to the registry, to the active list and to the journal, so that nothing
later has to open the operations themselves.
-/

set_option autoImplicit false

namespace Sequencer

namespace Stage

variable (s : Stage)

@[simp] theorem sequence_note (e : Entry) (id : Nat) :
    (s.note e).sequence id = s.sequence id := rfl

@[simp] theorem sequences_note (e : Entry) : (s.note e).sequences = s.sequences := rfl

@[simp] theorem find?_note (e : Entry) (name : String) : (s.note e).find? name = s.find? name := rfl

@[simp] theorem registry_note (e : Entry) : (s.note e).registry = s.registry := rfl

@[simp] theorem active_note (e : Entry) : (s.note e).active = s.active := rfl

@[simp] theorem held_note (e : Entry) : (s.note e).held = s.held := rfl

@[simp] theorem journal_note (e : Entry) : (s.note e).journal = e :: s.journal := rfl

@[simp] theorem find?_modify (id : Nat) (f : Sequence → Sequence) (name : String) :
    (s.modify id f).find? name = s.find? name := rfl

@[simp] theorem registry_modify (id : Nat) (f : Sequence → Sequence) :
    (s.modify id f).registry = s.registry := rfl

@[simp] theorem active_modify (id : Nat) (f : Sequence → Sequence) :
    (s.modify id f).active = s.active := rfl

@[simp] theorem held_modify (id : Nat) (f : Sequence → Sequence) :
    (s.modify id f).held = s.held := rfl

@[simp] theorem journal_modify (id : Nat) (f : Sequence → Sequence) :
    (s.modify id f).journal = s.journal := rfl

@[simp] theorem length_modify (id : Nat) (f : Sequence → Sequence) :
    (s.modify id f).sequences.length = s.sequences.length := by
  simp [modify]

theorem sequence_of_length_le {id : Nat} (h : s.sequences.length ≤ id) : s.sequence id = {} := by
  simp [sequence, List.getElem?_eq_none h]

theorem sequence_modify_self {id : Nat} (f : Sequence → Sequence)
    (h : id < s.sequences.length) : (s.modify id f).sequence id = f (s.sequence id) := by
  simp [sequence, modify, List.getElem?_eq_getElem h]

theorem sequence_modify_ne {id i : Nat} (f : Sequence → Sequence) (h : i ≠ id) :
    (s.modify id f).sequence i = s.sequence i := by
  simp [sequence, modify, Ne.symm h]

/-- A number that no sequence has stands for a sequence that cannot be changed. -/
theorem sequence_modify_cases (id i : Nat) (f : Sequence → Sequence) :
    (i = id ∧ id < s.sequences.length ∧ (s.modify id f).sequence i = f (s.sequence i)) ∨
      ((i ≠ id ∨ s.sequences.length ≤ id) ∧ (s.modify id f).sequence i = s.sequence i) := by
  by_cases hi : i = id
  · subst hi
    by_cases hl : i < s.sequences.length
    · exact .inl ⟨rfl, hl, s.sequence_modify_self f hl⟩
    · have hl : s.sequences.length ≤ i := by omega
      refine .inr ⟨.inr hl, ?_⟩
      rw [sequence_of_length_le _ (by simpa using hl), s.sequence_of_length_le hl]
  · exact .inr ⟨.inl hi, s.sequence_modify_ne f hi⟩

/-- What a change of one sequence leaves alone in that sequence it leaves alone in all. -/
theorem field_modify {α : Type} (g : Sequence → α) {f : Sequence → Sequence}
    (hf : ∀ q, g (f q) = g q) (id i : Nat) :
    g ((s.modify id f).sequence i) = g (s.sequence i) := by
  rcases s.sequence_modify_cases id i f with ⟨-, -, h⟩ | ⟨-, h⟩
  · rw [h, hf]
  · rw [h]

@[simp] theorem sequence_enlist (id i : Nat) : (s.enlist id).sequence i = s.sequence i := by
  unfold enlist; split <;> rfl

@[simp] theorem find?_enlist (id : Nat) (name : String) :
    (s.enlist id).find? name = s.find? name := by
  unfold enlist; split <;> rfl

@[simp] theorem sequences_enlist (id : Nat) : (s.enlist id).sequences = s.sequences := by
  unfold enlist; split <;> rfl

@[simp] theorem registry_enlist (id : Nat) : (s.enlist id).registry = s.registry := by
  unfold enlist; split <;> rfl

@[simp] theorem held_enlist (id : Nat) : (s.enlist id).held = s.held := by
  unfold enlist; split <;> rfl

@[simp] theorem journal_enlist (id : Nat) : (s.enlist id).journal = s.journal := by
  unfold enlist; split <;> rfl

theorem active_enlist (id : Nat) :
    (s.enlist id).active = if id ∈ s.active then s.active else s.active ++ [id] := by
  unfold enlist; split <;> rfl

theorem mem_active_enlist (id i : Nat) : i ∈ (s.enlist id).active ↔ i = id ∨ i ∈ s.active := by
  rw [active_enlist]
  split
  · next h => exact ⟨.inr, fun hi => hi.elim (fun e => e ▸ h) fun hi => hi⟩
  · simp [or_comm]

@[simp] theorem sequence_delist (id i : Nat) : (s.delist id).sequence i = s.sequence i := rfl

@[simp] theorem sequences_delist (id : Nat) : (s.delist id).sequences = s.sequences := rfl

@[simp] theorem find?_delist (id : Nat) (name : String) :
    (s.delist id).find? name = s.find? name := rfl

@[simp] theorem registry_delist (id : Nat) : (s.delist id).registry = s.registry := rfl

@[simp] theorem held_delist (id : Nat) : (s.delist id).held = s.held := rfl

@[simp] theorem journal_delist (id : Nat) : (s.delist id).journal = s.journal := rfl

theorem mem_active_delist (id i : Nat) : i ∈ (s.delist id).active ↔ i ∈ s.active ∧ i ≠ id := by
  simp [delist]

@[simp] theorem sequence_unregister (name : String) (i : Nat) :
    (s.unregister name).sequence i = s.sequence i := rfl

@[simp] theorem sequences_unregister (name : String) :
    (s.unregister name).sequences = s.sequences := rfl

@[simp] theorem active_unregister (name : String) : (s.unregister name).active = s.active := rfl

@[simp] theorem held_unregister (name : String) : (s.unregister name).held = s.held := rfl

@[simp] theorem journal_unregister (name : String) : (s.unregister name).journal = s.journal := rfl

theorem find?_unregister (name n : String) :
    (s.unregister name).find? n = if n = name then none else s.find? n := by
  by_cases h : n = name
  · subst h
    simp [find?, unregister, Table.get?_erase_self]
  · simp [find?, unregister, Table.get?_erase_ne _ h, h]

theorem find?_of_unregister {name n : String} {id : Nat}
    (h : (s.unregister name).find? n = some id) : s.find? n = some id := by
  rw [find?_unregister] at h
  split at h
  · exact absurd h (by simp)
  · exact h

@[simp] theorem active_enroll (q : Sequence) : (s.enroll q).active = s.active := rfl

@[simp] theorem held_enroll (q : Sequence) : (s.enroll q).held = s.held := rfl

@[simp] theorem journal_enroll (q : Sequence) : (s.enroll q).journal = s.journal := rfl

@[simp] theorem length_enroll (q : Sequence) :
    (s.enroll q).sequences.length = s.sequences.length + 1 := by
  simp [enroll]

theorem sequence_enroll (q : Sequence) (i : Nat) :
    (s.enroll q).sequence i = if i = s.sequences.length then q else s.sequence i := by
  simp only [sequence, enroll, List.getElem?_append]
  by_cases hi : i < s.sequences.length
  · simp [hi, show i ≠ s.sequences.length by omega]
  · by_cases h : i = s.sequences.length
    · simp [h]
    · simp [hi, h, show ¬ i - s.sequences.length = 0 by omega]

theorem find?_enroll (q : Sequence) (n : String) :
    (s.enroll q).find? n = if n = q.name then some s.sequences.length else s.find? n := by
  by_cases h : n = q.name
  · subst h
    simp [find?, enroll, Table.get?_put_self]
  · simp [find?, enroll, Table.get?_put_ne _ _ h, h]

end Stage

end Sequencer
