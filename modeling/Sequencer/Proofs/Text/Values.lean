import Sequencer.Proofs.Text.Items
import Sequencer.Proofs.Text.Literals
import Sequencer.Proofs.Text.Numbers

/-!
# Values

The values of the notation, each with the depth to which it nests: scalars and names, options, and
lists, maps, tuples and records of values. Every value begins with a character that neither a blank
nor the end of an item begins with.
-/

set_option autoImplicit false

namespace Sequencer.Text

open Reader

def reserved : List (List Char) := "Some".toList :: valueWords

inductive Title : List Char → Prop
  | none : Title []
  | name {word text b : List Char} : Name word text → text ∉ reserved → Blank b → Title (text ++ b)

/-- The texts of a value that nests no deeper than `n`: a bracket takes one, and so does every
element inside one. -/
inductive Value : Nat → List Char → Prop
  | word {n : Nat} {word : List Char} : word ∈ valueWords → Value n word
  | name {n : Nat} {word text : List Char} : Name word text → text ∉ reserved → Value n text
  | number {n : Nat} {text : List Char} : Number text → Value n text
  | quoted {n : Nat} {text : List Char} : Quoted text → Value n text
  | unit {n : Nat} : Value n ['(', ')']
  | some {n : Nat} {comma : Bool} {b b' b'' value : List Char} : Blank b → Blank b' →
      Value n value → Comma comma b'' →
      Value (n + 1) ("Some".toList ++ (b ++ '(' :: (b' ++ (value ++ (b'' ++ [')'])))))
  | list {n : Nat} {text : List Char} {items : List (List Char)} :
      (∀ i ∈ items, Value (n - 1) i) → (items = [] ∨ 0 < n) → Items items text →
      Value (n + 1) ('[' :: (text ++ [']']))
  | map {n : Nat} {text : List Char} {entries : List Entry} :
      (∀ e ∈ entries, Value (n - 1) e.key) → (∀ e ∈ entries, Value (n - 1) e.value) →
      (∀ e ∈ entries, e.Spaced) → (entries = [] ∨ 0 < n) → Items (entries.map Entry.text) text →
      Value (n + 1) ('\x7b' :: (text ++ ['\x7d']))
  | tuple {n : Nat} {title text : List Char} {items : List (List Char)} : Title title →
      (∀ i ∈ items, Value (n - 1) i) → (items = [] ∨ 0 < n) → Items items text →
      Value (n + 1) (title ++ '(' :: (text ++ [')']))
  | record {n : Nat} {title text : List Char} {entries : List Entry} : Title title →
      (∀ e ∈ entries, ∃ word, Name word e.key) → (∀ e ∈ entries, Value (n - 1) e.value) →
      (∀ e ∈ entries, e.Spaced) → (entries = [] ∨ 0 < n) → Items (entries.map Entry.text) text →
      Value (n + 1) (title ++ '(' :: (text ++ [')']))

variable {e : Extensions} {n : Nat} {c : Char} {b text word value rest : List Char}

/-! How values begin -/

theorem name_of_mem_reserved (h : word ∈ reserved) : Name word word := by
  have hall : reserved.all isWord = true := by decide +kernel
  exact name_word (List.all_eq_true.mp hall word h)

theorem name_of_mem_valueWords (h : word ∈ valueWords) : Name word word :=
  name_of_mem_reserved (List.mem_cons_of_mem _ h)

theorem name_some : Name "Some".toList "Some".toList := name_of_mem_reserved List.mem_cons_self

theorem Quoted.opens (h : Quoted text) : Opens text := by
  cases h <;> exact ⟨_, _, rfl, by decide⟩

/-- A digit, a sign or a point. -/
theorem mem_of_opensNumber (h : opensNumber c = true) :
    c ∈ ['0', '1', '2', '3', '4', '5', '6', '7', '8', '9', '+', '-', '.'] := by
  simp only [opensNumber, Bool.or_eq_true, decide_eq_true_eq] at h
  rcases h with ((h | rfl) | rfl) | rfl
  · obtain ⟨hlow, hhigh⟩ := Char.isDigit_iff_toNat.mp h
    have h0 : '0'.toNat = 48 := rfl
    have h9 : '9'.toNat = 57 := rfl
    have hcode : c.toNat ∈ [48, 49, 50, 51, 52, 53, 54, 55, 56, 57] := by
      simp only [List.mem_cons, List.not_mem_nil, or_false]
      omega
    have hall : ∀ n ∈ [48, 49, 50, 51, 52, 53, 54, 55, 56, 57], Char.ofNat n ∈
        ['0', '1', '2', '3', '4', '5', '6', '7', '8', '9', '+', '-', '.'] := by
      decide
    rw [← Char.ofNat_toNat c]
    exact hall _ hcode
  all_goals decide

theorem opensNumber_isNameStart (h : opensNumber c = true) : isNameStart c = false := by
  have hall : ∀ d ∈ ['0', '1', '2', '3', '4', '5', '6', '7', '8', '9', '+', '-', '.'],
      ¬ isNameStart d = true := List.any_eq_false.mp (by decide +kernel)
  exact Bool.eq_false_iff.mpr (hall c (mem_of_opensNumber h))

theorem opensItem_of_opensNumber (h : opensNumber c = true) : opensItem c = true := by
  have hall : ∀ d ∈ ['0', '1', '2', '3', '4', '5', '6', '7', '8', '9', '+', '-', '.'],
      opensItem d = true := List.all_eq_true.mp (by decide)
  exact hall c (mem_of_opensNumber h)

theorem Number.head (h : Number text) : ∃ c rest, text = c :: rest ∧ opensNumber c = true := by
  cases h with
  | @whole sign mark run suffix base n down up hsign hm hne hhead hrun hn hs hle =>
    simp only [List.mem_cons, List.not_mem_nil, or_false] at hsign
    simp only [bases, List.mem_cons, Prod.mk.injEq, List.not_mem_nil, or_false] at hm
    rcases hsign with rfl | rfl | rfl
    · rcases hm with ⟨rfl, rfl⟩ | ⟨rfl, rfl⟩ | ⟨rfl, rfl⟩ | ⟨rfl, rfl⟩
      · obtain ⟨d, run, rfl⟩ := List.exists_cons_of_ne_nil hne
        refine ⟨d, run ++ suffix, rfl, ?_⟩
        rcases decimal_chars hn d (by simp) with rfl | hd
        · exact absurd rfl hhead
        · simp [opensNumber, hd]
      all_goals exact ⟨_, _, rfl, by decide⟩
    all_goals exact ⟨_, _, rfl, by decide⟩
  | decimal _ hc => exact ⟨_, _, rfl, hc⟩

theorem Number.opens (h : Number text) : Opens text := by
  obtain ⟨c, rest, rfl, hc⟩ := h.head
  exact ⟨c, rest, rfl, opensItem_of_opensNumber hc⟩

theorem Title.opens (h : Title text) (rest : List Char) : Opens (text ++ '(' :: rest) := by
  cases h with
  | none => exact ⟨'(', rest, rfl, by decide⟩
  | name hn _ _ =>
    rw [List.append_assoc]
    exact hn.opens _

theorem Value.opens (h : Value n value) : Opens value := by
  cases h with
  | word hw => simpa using (name_of_mem_valueWords hw).opens []
  | name hn _ => simpa using hn.opens []
  | number hn => exact hn.opens
  | quoted hq => exact hq.opens
  | unit => exact ⟨_, _, rfl, by decide⟩
  | some _ _ _ _ => exact name_some.opens _
  | list _ _ _ => exact ⟨_, _, rfl, by decide⟩
  | map _ _ _ _ _ => exact ⟨_, _, rfl, by decide⟩
  | tuple ht _ _ _ => exact ht.opens _
  | record ht _ _ _ _ _ => exact ht.opens _

end Sequencer.Text
