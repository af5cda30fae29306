import Sequencer.Proofs.Text.Digits

/-!
# Quoted text that was written is read back

Between quotes every character stands in one form, and reading takes each form back to its
character. No form begins with the closing quote, so a text ends where it was closed.
-/

set_option autoImplicit false

namespace Sequencer.Text

def named : List (Char × Char) :=
  [('\x00', '0'), ('\t', 't'), ('\r', 'r'), ('\n', 'n'), ('\\', '\\'), ('"', '"'), ('\'', '\'')]

inductive Stands : Char → List Char → Prop
  | named {c letter : Char} : (c, letter) ∈ named → Stands c ['\\', letter]
  | hidden {c : Char} : c ∉ Text.named.map (·.1) → isJoining c = true ∨ isPrintable c = false →
      Stands c (codePoint c)
  | plain {c : Char} : c ∉ Text.named.map (·.1) → isJoining c = false → isPrintable c = true →
      Stands c [c]

inductive Spells : List Char → List Char → Prop
  | nil : Spells [] []
  | cons {c : Char} {form cs text : List Char} :
      Stands c form → Spells cs text → Spells (c :: cs) (form ++ text)

variable {c : Char} {form rest : List Char}

theorem Stands.length_pos (h : Stands c form) : 0 < form.length := by
  cases h <;> simp [codePoint]

theorem Spells.length_le {cs text : List Char} (h : Spells cs text) : cs.length ≤ text.length := by
  induction h with
  | nil => simp
  | cons hc _ ih =>
    have := hc.length_pos
    simp only [List.length_cons, List.length_append]
    omega

theorem stands_escaped (c : Char) : Stands c (escaped true c) := by
  by_cases hc : c ∈ named.map (·.1)
  · simp only [named, List.map_cons, List.map_nil, List.mem_cons, List.not_mem_nil, or_false] at hc
    rcases hc with rfl | rfl | rfl | rfl | rfl | rfl | rfl <;> exact .named (by decide)
  · have hne := hc
    simp only [named, List.map_cons, List.map_nil, List.mem_cons, List.not_mem_nil, or_false,
      not_or] at hne
    obtain ⟨h0, ht, hr, hn, hb, hq, ha⟩ := hne
    simp only [escaped, h0, ht, hr, hn, hb, hq, ha, false_and, or_self, if_false]
    split
    · next h => exact .hidden hc (by simpa using h)
    · next h =>
      obtain ⟨hj, hp⟩ : isJoining c = false ∧ isPrintable c = true := by simpa using h
      exact .plain hc hj hp

theorem spells_escaped (cs : List Char) : Spells cs (cs.flatMap (escaped true)) := by
  induction cs with
  | nil => exact .nil
  | cons c cs ih => exact .cons (stands_escaped c) ih

namespace Reader

theorem afterBackslash_named {letter : Char} {bytesOnly : Bool} {bytes : Nat}
    (h : (c, letter) ∈ named) (rest : List Char) :
    afterBackslash bytesOnly bytes (letter :: rest) = some (c, rest) := by
  simp only [named, List.mem_cons, Prod.mk.injEq, List.not_mem_nil, or_false] at h
  rcases h with ⟨rfl, rfl⟩ | ⟨rfl, rfl⟩ | ⟨rfl, rfl⟩ | ⟨rfl, rfl⟩ | ⟨rfl, rfl⟩ | ⟨rfl, rfl⟩ |
    ⟨rfl, rfl⟩ <;> rfl

theorem ofCodePoint?_toNat (c : Char) : ofCodePoint? c.toNat = some c := by
  have hc : c.toNat.isValidChar := c.valid
  simp [ofCodePoint?, hc]

theorem afterBackslash_codePoint (c : Char) (rest : List Char) :
    afterBackslash false 4 ((codePoint c).tail ++ rest) = some (c, rest) := by
  have hdigits : (codePoint c).tail ++ rest =
      'u' :: '\x7b' :: (Nat.toDigits 16 c.toNat ++ '\x7d' :: rest) := by
    simp [codePoint]
  rw [hdigits, afterBackslash, bind_some (next_cons 'u' _)]
  show (do require ['\x7b']; _ : Reader Char) _ = _
  rw [bind_some (require_head '\x7b' _), bind_some (braced_codePoint c rest), ofCodePoint?_toNat]
  rfl

/-- Reading takes a form back to its character, and goes on behind it. -/
theorem stringBody_stands (h : Stands c form) (n : Nat) (rest : List Char) :
    stringBody false (n + 1) (form ++ rest) =
      (do return c :: (← stringBody false n) : Reader (List Char)) rest := by
  cases h with
  | named hc =>
    rw [stringBody, List.cons_append, bind_some (next_cons '\\' _)]
    show (do let c ← afterBackslash false 4; return c :: (← stringBody false n)) _ = _
    rw [List.singleton_append, bind_some (afterBackslash_named hc rest)]
  | hidden _ _ =>
    rw [stringBody, show codePoint c ++ rest = '\\' :: ((codePoint c).tail ++ rest) from rfl,
      bind_some (next_cons '\\' _)]
    show (do let c ← afterBackslash false 4; return c :: (← stringBody false n)) _ = _
    rw [bind_some (afterBackslash_codePoint c rest)]
  | plain hc _ _ =>
    rw [stringBody, List.singleton_append, bind_some (next_cons c rest)]
    split
    · simp [named] at hc
    · simp [named] at hc
    · rfl

theorem stringBody_spells {cs text : List Char} (h : Spells cs text) {n : Nat}
    (hn : cs.length < n) (rest : List Char) :
    stringBody false n (text ++ '"' :: rest) = some (cs, rest) := by
  induction h generalizing n with
  | nil =>
    obtain ⟨n, rfl⟩ := Nat.exists_eq_add_one.mpr hn
    rfl
  | cons hc _ ih =>
    obtain ⟨n, rfl⟩ : ∃ k, n = k + 1 := Nat.exists_eq_add_one.mpr (by omega)
    rw [List.append_assoc, stringBody_stands hc, bind_some (ih (by simpa using hn))]
    rfl

theorem string_spells {cs text : List Char} (h : Spells cs text) (rest : List Char) :
    string ('"' :: (text ++ '"' :: rest)) = some (cs, rest) := by
  rw [string, bind_some (accept_head '"' _), if_pos rfl, bind_some (left_apply _)]
  apply stringBody_spells h
  have := h.length_le
  simp
  omega

end Reader

end Sequencer.Text
