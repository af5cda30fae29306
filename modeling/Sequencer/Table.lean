/-!
# Tables in insertion order

A table keeps one value per key, and its keys stay in the order in which they first came.
Writing to a key that is present leaves it where it stands.
-/

set_option autoImplicit false

namespace Sequencer

structure Table (κ α : Type) where
  entries : List (κ × α) := []

namespace Table

variable {κ α : Type} [DecidableEq κ]

def get? (t : Table κ α) (k : κ) : Option α :=
  (t.entries.find? fun e => e.1 = k).map (·.2)

def contains (t : Table κ α) (k : κ) : Bool := (t.get? k).isSome

def keys (t : Table κ α) : List κ := t.entries.map (·.1)

def size (t : Table κ α) : Nat := t.entries.length

def isEmpty (t : Table κ α) : Bool := t.entries.isEmpty

def putIn (k : κ) (v : α) : List (κ × α) → List (κ × α)
  | [] => [(k, v)]
  | e :: rest => if e.1 = k then (k, v) :: rest else e :: putIn k v rest

def put (t : Table κ α) (k : κ) (v : α) : Table κ α := ⟨putIn k v t.entries⟩

def erase (t : Table κ α) (k : κ) : Table κ α := ⟨t.entries.filter fun e => e.1 ≠ k⟩

theorem get?_put_self (t : Table κ α) (k : κ) (v : α) : (t.put k v).get? k = some v := by
  obtain ⟨l⟩ := t
  simp only [get?, put]
  induction l with
  | nil => simp [putIn]
  | cons e rest ih => by_cases h : e.1 = k <;> simp_all [putIn]

theorem get?_put_ne (t : Table κ α) {k j : κ} (v : α) (h : j ≠ k) :
    (t.put k v).get? j = t.get? j := by
  obtain ⟨l⟩ := t
  simp only [get?, put]
  induction l with
  | nil => simp [putIn, Ne.symm h]
  | cons e rest ih =>
    by_cases hk : e.1 = k
    · subst hk; simp [putIn, Ne.symm h]
    · by_cases hj : e.1 = j <;> simp_all [putIn]

theorem get?_erase_self (t : Table κ α) (k : κ) : (t.erase k).get? k = none := by
  simp [get?, erase, List.find?_eq_none]

theorem get?_erase_ne (t : Table κ α) {k j : κ} (h : j ≠ k) :
    (t.erase k).get? j = t.get? j := by
  obtain ⟨l⟩ := t
  simp only [get?, erase]
  induction l with
  | nil => rfl
  | cons e rest ih =>
    by_cases hk : e.1 = k
    · subst hk; simp_all [Ne.symm h]
    · by_cases hj : e.1 = j <;> simp_all

end Table

end Sequencer
