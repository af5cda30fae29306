import Sequencer.Proofs.Text.Reading

/-!
# Numbers that were written are read back

The digits of a number in a base stand for that number, as the digits of a code point in braces
and as a whole number on its own.
-/

set_option autoImplicit false

namespace Sequencer.Text

variable {b m n : Nat} {c : Char} {ds rest : List Char}

theorem hexDigit?_digitChar {d : Nat} (h : d < 16) : hexDigit? d.digitChar = some d := by
  have hall : ∀ d : Fin 16, hexDigit? (Nat.digitChar d) = some d.val := by decide
  exact hall ⟨d, h⟩

theorem ofDigits_append (b : Nat) (ds es : List Char) (n : Nat) :
    ofDigits b (ds ++ es) n = (ofDigits b ds n).bind (ofDigits b es) := by
  induction ds generalizing n with
  | nil => rfl
  | cons d ds ih =>
    simp only [List.cons_append, ofDigits]
    split
    · split
      · exact ih _
      · rfl
    · rfl

theorem ofDigits_digitChar {d : Nat} (hb : b ≤ 16) (hd : d < b) (n : Nat) :
    ofDigits b [d.digitChar] n = some (n * b + d) := by
  simp [ofDigits, hexDigit?_digitChar (Nat.lt_of_lt_of_le hd hb), hd]

/-- Leading digits carry the rest of the number, so the induction is on the number. -/
theorem ofDigits_toDigits (hb : 1 < b) (hb' : b ≤ 16) (n : Nat) :
    ofDigits b (Nat.toDigits b n) 0 = some n := by
  induction n using Nat.strongRecOn with
  | ind n ih =>
    by_cases hn : n < b
    · rw [Nat.toDigits_of_lt_base hn, ofDigits_digitChar hb' hn]
      simp
    · have hn : b ≤ n := by omega
      have hpos : 0 < n := by omega
      rw [Nat.toDigits_of_base_le hb hn, ofDigits_append, ih _ (Nat.div_lt_self hpos hb)]
      show ofDigits b [(n % b).digitChar] (n / b) = some n
      rw [ofDigits_digitChar hb' (Nat.mod_lt n (by omega)), Nat.div_add_mod']

namespace Reader

theorem hexDigit_cons {d : Nat} (h : hexDigit? c = some d) (rest : List Char) :
    hexDigit (c :: rest) = some (d, rest) := by
  rw [hexDigit, bind_some (next_cons c rest), h]
  rfl

theorem braced_digit {d : Nat} (h : hexDigit? c = some d) (more count n : Nat)
    (rest : List Char) :
    braced (more + 1) count n (c :: rest) = braced more (count + 1) (n * 16 + d) rest := by
  have hne : c ≠ '\x7d' := by
    rintro rfl
    simp [hexDigit?] at h
  simp [braced, bind_apply, hne, hexDigit_cons h]

theorem braced_close {count : Nat} (h : count ≠ 0) (more n : Nat) (rest : List Char) :
    braced more count n ('\x7d' :: rest) = some (n, rest) := by
  have hclose : (do require ['\x7d']; pure n : Reader Nat) ('\x7d' :: rest) = some (n, rest) :=
    bind_some (require_head _ rest) _
  cases more with
  | zero => exact hclose
  | succ more =>
    rw [braced, bind_some (peek_cons _ rest)]
    simpa [h] using hclose

/-- As many digits as there is room for, up to the closing brace. -/
theorem braced_append {more count : Nat} (h : ofDigits 16 ds n = some m)
    (hroom : ds.length ≤ more) (hsome : 0 < count + ds.length) (rest : List Char) :
    braced more count n (ds ++ '\x7d' :: rest) = some (m, rest) := by
  induction ds generalizing more count n with
  | nil =>
    obtain rfl : n = m := Option.some.inj h
    exact braced_close (by simpa using Nat.ne_of_gt hsome) more n rest
  | cons d ds ih =>
    obtain ⟨more, rfl⟩ : ∃ k, more = k + 1 := Nat.exists_eq_add_one.mpr (by simp at hroom; omega)
    cases hd : hexDigit? d with
    | none => simp [ofDigits, hd] at h
    | some v =>
      simp only [ofDigits, hd] at h
      split at h
      · rw [List.cons_append, braced_digit hd]
        exact ih h (by simpa using hroom) (by omega)
      · cases h

/-- A code point needs at most six digits. -/
theorem braced_codePoint (c : Char) (rest : List Char) :
    braced 6 0 0 (Nat.toDigits 16 c.toNat ++ '\x7d' :: rest) = some (c.toNat, rest) := by
  have hc : c.toNat < 16 ^ 6 := by
    have := c.valid
    have hval : c.val.toNat < 0x110000 := by
      rcases this with h | ⟨-, h⟩ <;> omega
    exact Nat.lt_trans hval (by decide)
  apply braced_append (ofDigits_toDigits (by omega) (by omega) _)
  · exact (Nat.length_toDigits_le_iff (by omega) (by omega)).mpr hc
  · simpa using Nat.length_toDigits_pos

theorem isIntChar_of_isDigit (h : c.isDigit = true) : isIntChar c = true := by
  obtain ⟨hlow, hhigh⟩ := Char.isDigit_iff_toNat.mp h
  have h0 : '0' ≤ c := by simpa [Char.le_def, UInt32.le_iff_toNat_le] using hlow
  have h9 : c ≤ '9' := by simpa [Char.le_def, UInt32.le_iff_toNat_le] using hhigh
  simp [isIntChar, hexDigit?, h0, h9]

theorem isSolid_of_isDigit {c : Char} (h : c.isDigit = true) : isSolid c = true := by
  obtain ⟨hlow, hhigh⟩ := Char.isDigit_iff_toNat.mp h
  have h0 : '0'.toNat = 48 := rfl
  have h9 : '9'.toNat = 57 := rfl
  have hslash : c ≠ '/' := by
    rintro rfl
    simp at h
  simp [isSolid, isBlank, hslash]
  omega

/-- Digits that a closing parenthesis ends do not open with the mark of another base. -/
theorem base_digits (h : ∀ d ∈ ds, d.isDigit = true) (rest : List Char) :
    base (ds ++ ')' :: rest) = some (10, ds ++ ')' :: rest) := by
  have hno : ∀ mark : Char, mark.isDigit = false → mark ≠ ')' →
      ['0', mark].isPrefixOf (ds ++ ')' :: rest) = false := by
    intro mark hmark hclose
    match ds, h with
    | [], _ => simp [List.isPrefixOf]
    | [d], _ => simp [List.isPrefixOf, hclose]
    | d :: e :: ds, h =>
      have he : e ≠ mark := by
        rintro rfl
        simp [h] at hmark
      simp [List.isPrefixOf, Ne.symm he]
  rw [base, bind_some (accept_other (hno 'b' (by decide) (by decide)))]
  simp only [Bool.false_eq_true, if_false]
  rw [bind_some (accept_other (hno 'o' (by decide) (by decide)))]
  simp only [Bool.false_eq_true, if_false]
  rw [bind_some (accept_other (hno 'x' (by decide) (by decide)))]
  rfl

theorem isDigit_toDigits (n : Nat) : ∀ d ∈ Nat.toDigits 10 n, d.isDigit = true :=
  fun _ => Nat.isDigit_of_mem_toDigits (by omega) (by omega)

theorem toDigits_cons (n : Nat) : ∃ d ds, Nat.toDigits 10 n = d :: ds ∧ d.isDigit = true := by
  obtain ⟨d, ds, hds⟩ := List.exists_cons_of_ne_nil (Nat.toDigits_ne_nil (n := n) (b := 10))
  exact ⟨d, ds, hds, isDigit_toDigits n d (by simp [hds])⟩

theorem natural_toDigits (n : Nat) (rest : List Char) :
    natural (Nat.toDigits 10 n ++ ')' :: rest) = some (n, ')' :: rest) := by
  obtain ⟨d, ds, hds, -⟩ := toDigits_cons n
  have hdigits := isDigit_toDigits n
  have hno : '_' ∉ Nat.toDigits 10 n := Nat.underscore_not_in_toDigits
  have hd : '_' ≠ d := by
    rintro rfl
    exact hno (by simp [hds])
  have hahead : ahead ['_'] (Nat.toDigits 10 n ++ ')' :: rest) =
      some (false, Nat.toDigits 10 n ++ ')' :: rest) := by
    rw [hds, List.cons_append]
    exact ahead_other hd
  have hrun : takeWhile isIntChar (Nat.toDigits 10 n ++ ')' :: rest) =
      some (Nat.toDigits 10 n, ')' :: rest) :=
    takeWhile_append (fun d hd => isIntChar_of_isDigit (hdigits d hd)) (by decide) rest
  have hfilter : (Nat.toDigits 10 n).filter (· ≠ '_') = Nat.toDigits 10 n := by
    apply List.filter_eq_self.mpr
    intro d hd
    exact decide_eq_true fun h => hno (h ▸ hd)
  rw [natural, bind_some (base_digits hdigits rest), bind_some hahead]
  simp only [Bool.false_eq_true, if_false]
  rw [bind_some hrun, if_neg (by simp [hds]), hfilter, ofDigits_toDigits (by omega) (by omega)]
  rfl

theorem minus_digit (h : c.isDigit = true) (rest : List Char) :
    minus (c :: rest) = some (false, c :: rest) := by
  have hno : ∀ sign : Char, sign.isDigit = false → [sign].isPrefixOf (c :: rest) = false := by
    intro sign hsign
    have hne : sign ≠ c := by
      rintro rfl
      exact Bool.false_ne_true (hsign.symm.trans h)
    simp [List.isPrefixOf, hne]
  rw [minus, bind_some (accept_other (hno '-' (by decide)))]
  simp only [Bool.false_eq_true, if_false]
  rw [bind_some (accept_other (hno '+' (by decide)))]
  rfl

/-- A whole number without a sign and without a suffix. -/
theorem integer_toDigits {types : List (List Char × Nat × Nat)} {down up : Nat}
    (ht : firstKeyword types (')' :: rest) = some (none, ')' :: rest)) (hn : n ≤ up) :
    integer types down up (Nat.toDigits 10 n ++ ')' :: rest) = some ((n : Int), ')' :: rest) := by
  obtain ⟨d, ds, hds, hd⟩ := toDigits_cons n
  have hminus := minus_digit hd (ds ++ ')' :: rest)
  rw [← List.cons_append, ← hds] at hminus
  rw [integer, bind_some hminus, bind_some (natural_toDigits n rest), bind_apply,
    bind_some ht]
  simp [hn]

/-- A number of 64 bits in front of a closing parenthesis. -/
theorem unsigned64_toDigits (hn : n ≤ Decimal.pow2 64 - 1) (rest : List Char) :
    unsigned64 (Nat.toDigits 10 n ++ ')' :: rest) = some (n, ')' :: rest) := by
  have ht : firstKeyword (integerTypes.filter (·.1 = ['u', '6', '4'])) (')' :: rest) =
      some (none, ')' :: rest) := by
    rfl
  rw [unsigned64, bind_some (integer_toDigits ht hn)]
  rfl

end Reader

end Sequencer.Text
