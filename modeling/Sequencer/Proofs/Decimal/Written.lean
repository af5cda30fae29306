import Sequencer.Proofs.Decimal.Shortest
import Sequencer.Proofs.Text.Numbers

/-!
# A number that was written is a number

What is written for a number is one of the texts of that number: the words for infinity and for what
is not a number, and otherwise digits around a point whose value is near the number.
-/

set_option autoImplicit false

namespace Sequencer.Decimal

open Text

variable {m n c k : Nat} {q power : Int} {whole fraction ds : List Char} {x : Float32}

/-! Digits -/

theorem decimalDigits_eq (ds : List Char) : decimalDigits ds = Nat.ofDigitChars 10 ds 0 := by
  rw [decimalDigits, Nat.ofDigitChars_eq_foldl]
  congr 1
  funext n c
  rw [Nat.mul_comm]
  rfl

theorem decimalDigits_toDigits (n : Nat) : decimalDigits (Nat.toDigits 10 n) = n := by
  rw [decimalDigits_eq, Nat.ofDigitChars_toDigits (by omega) (by omega)]

/-- Zeros behind the digits of a number. -/
theorem decimalDigits_shift (n k : Nat) :
    decimalDigits (Nat.toDigits 10 n ++ List.replicate k '0') = n * 10 ^ k := by
  rw [decimalDigits_eq, Nat.ofDigitChars_append, Nat.ofDigitChars_toDigits (by omega) (by omega),
    Nat.ofDigitChars_replicate_zero, Nat.mul_comm]

/-- Zeros before the digits of a number. -/
theorem decimalDigits_pad (n k : Nat) :
    decimalDigits (List.replicate k '0' ++ Nat.toDigits 10 n) = n := by
  rw [decimalDigits_eq, Nat.ofDigitChars_append, Nat.ofDigitChars_replicate_zero, Nat.mul_zero,
    Nat.ofDigitChars_toDigits (by omega) (by omega)]

structure Pointed (v : ℚ) (whole fraction : List Char) : Prop where
  some : whole ≠ []
  digits : ∀ d ∈ whole ++ fraction, d.isDigit = true
  value : (decimalDigits (whole ++ fraction) : ℚ) * 10 ^ (-(fraction.length : Int)) = v

/-- A coefficient and a power of ten, written out: all digits before the point, a point among them,
or all behind it. -/
theorem positional_pointed (c : Nat) (power : Int) : ∃ whole fraction,
    positional c power = whole ++ '.' :: fraction ∧ Pointed (c * 10 ^ power) whole fraction := by
  have hdigit := Reader.isDigit_toDigits c
  have hzeros : ∀ k, ∀ d ∈ List.replicate k '0', d.isDigit = true := by
    intro k d hd
    rw [List.eq_of_mem_replicate hd]
    rfl
  have hne : Nat.toDigits 10 c ≠ [] := Nat.toDigits_ne_nil
  simp only [positional]
  split
  · next hpower =>
    obtain ⟨k, rfl⟩ := Int.eq_ofNat_of_zero_le hpower
    refine ⟨Nat.toDigits 10 c ++ List.replicate k '0', ['0'], rfl, by simp, ?_, ?_⟩
    · simp only [List.mem_append]
      rintro d ((hd | hd) | hd)
      · exact hdigit d hd
      · exact hzeros k d hd
      · exact hzeros 1 d hd
    · have hshift : Nat.toDigits 10 c ++ List.replicate k '0' ++ ['0'] =
          Nat.toDigits 10 c ++ List.replicate (k + 1) '0' := by
        rw [List.append_assoc, ← List.replicate_succ']
      rw [hshift, decimalDigits_shift]
      simp [pow_succ, mul_assoc]
  · next hpower =>
    obtain ⟨k, rfl⟩ : ∃ k : Nat, power = -(k : Int) := ⟨(-power).toNat, by omega⟩
    rw [Int.neg_neg, Int.toNat_natCast]
    split
    · next hk =>
      refine ⟨_, _, rfl, ?_, ?_, ?_⟩
      · exact fun hnil => by
          rcases List.take_eq_nil_iff.mp hnil with h | h
          · omega
          · exact hne h
      · rwa [List.take_append_drop]
      · rw [List.take_append_drop, decimalDigits_toDigits, List.length_drop,
          Nat.sub_sub_self hk.le]
    · next hk =>
      refine ⟨['0'], _, rfl, by simp, ?_, ?_⟩
      · simp only [List.mem_append]
        rintro d (hd | hd | hd)
        · exact hzeros 1 d hd
        · exact hzeros _ d hd
        · exact hdigit d hd
      · have hpad : ['0'] ++ (List.replicate (k - (Nat.toDigits 10 c).length) '0' ++
            Nat.toDigits 10 c) = List.replicate (k - (Nat.toDigits 10 c).length + 1) '0' ++
            Nat.toDigits 10 c := rfl
        rw [hpad, decimalDigits_pad, List.length_append, List.length_replicate,
          Nat.sub_add_cancel (not_lt.mp hk)]

/-! Reading the digits -/

theorem digit_ne {c d : Char} (hc : c.isDigit = true) (hd : d.isDigit = false) : c ≠ d := by
  rintro rfl
  exact Bool.false_ne_true (hd.symm.trans hc)

/-- The decimal that a sign and digits around a point stand for. -/
theorem ofChars?_pointed {v : ℚ} (h : Pointed v whole fraction) (negative : Bool) :
    Scientific.ofChars? (minusIf negative (whole ++ '.' :: fraction)) =
      some ⟨negative, decimalDigits (whole ++ fraction), -(fraction.length : Int)⟩ := by
  obtain ⟨d, ds, rfl⟩ := List.exists_cons_of_ne_nil h.some
  have hwhole : ∀ e ∈ d :: ds, e.isDigit = true := fun e he =>
    h.digits e (List.mem_append_left fraction he)
  have hfraction : ∀ e ∈ fraction, e.isDigit = true := fun e he =>
    h.digits e (List.mem_append_right (d :: ds) he)
  have hd := hwhole d (by simp)
  have hminus : d ≠ '-' := digit_ne hd rfl
  have hplus : d ≠ '+' := digit_ne hd rfl
  have htake : ((d :: ds) ++ '.' :: fraction).takeWhile Char.isDigit = d :: ds := by
    rw [List.takeWhile_append_of_pos hwhole]
    simp
  have hdrop : ((d :: ds) ++ '.' :: fraction).dropWhile Char.isDigit = '.' :: fraction := by
    rw [List.dropWhile_append_of_pos hwhole]
    simp
  have htake' : fraction.takeWhile Char.isDigit = fraction := by
    simpa [List.takeWhile_eq_self_iff] using hfraction
  have hdrop' : fraction.dropWhile Char.isDigit = [] := by
    simpa [List.dropWhile_eq_nil_iff] using hfraction
  cases negative with
  | false =>
    simp only [Scientific.ofChars?, minusIf]
    simp [hminus, hplus] at htake hdrop ⊢
    simp [htake, hdrop, htake', hdrop', hd]
  | true =>
    simp only [Scientific.ofChars?, minusIf]
    simp at htake hdrop ⊢
    simp [htake, hdrop, htake', hdrop', hd]

/-! The value of the digits -/

theorem Near.pos {v : ℚ} (hm : 0 < m) (h : Near m q v) : 1 / 2 * 2 ^ q ≤ v := by
  have hle : (1 / 2 : ℚ) ≤ m - 1 / 2 := by
    have : (1 : ℚ) ≤ m := by exact_mod_cast hm
    linarith
  exact (mul_le_mul_of_nonneg_right hle (two_zpow_pos q).le).trans ((le_lowerBound m q).trans h.low)

theorem Near.coefficient_pos (hm : 0 < m) (h : Near m q (c * 10 ^ power)) : 0 < c := by
  rcases Nat.eq_zero_or_pos c with rfl | hc
  · have hle := h.pos hm
    have hpow := two_zpow_pos q
    simp only [Nat.cast_zero, zero_mul] at hle
    linarith
  · exact hc

/-- A decimal near a number is not so far out that its size decides. -/
theorem Near.size (hf : Finite m q) (hm : 0 < m) (h : Near m q (c * 10 ^ power)) :
    -50 ≤ ((Nat.toDigits 10 c).length + power : Int) ∧
      ((Nat.toDigits 10 c).length + power : Int) ≤ 50 := by
  have hlen : 0 < (Nat.toDigits 10 c).length := Nat.length_toDigits_pos
  have hten := zpow_pos (show (0 : ℚ) < 10 by norm_num) power
  have hlt : (c : ℚ) < 10 ^ (Nat.toDigits 10 c).length := by
    exact_mod_cast (Nat.length_toDigits_le_iff (by omega) hlen).mp le_rfl
  have hle : (10 : ℚ) ^ ((Nat.toDigits 10 c).length - 1) ≤ c := by
    exact_mod_cast pow_length_le (h.coefficient_pos hm)
  generalize (Nat.toDigits 10 c).length = len at *
  constructor
  · by_contra hsmall
    have hv : (c : ℚ) * 10 ^ power < 10 ^ (-50 : Int) := by
      calc (c : ℚ) * 10 ^ power < 10 ^ len * 10 ^ power := mul_lt_mul_of_pos_right hlt hten
        _ = 10 ^ (len + power) := by rw [← zpow_natCast, zpow_add₀ (by norm_num)]
        _ ≤ 10 ^ (-50 : Int) := zpow_le_zpow_right₀ (by norm_num) (by omega)
    have hq : (2 : ℚ) ^ (-149 : Int) ≤ 2 ^ q := zpow_le_zpow_right₀ (by norm_num) hf.low
    have hbound := h.pos hm
    norm_num at hv hq
    linarith
  · by_contra hlarge
    have hv : (10 : ℚ) ^ (50 : Int) ≤ c * 10 ^ power := by
      calc (10 : ℚ) ^ (50 : Int) ≤ 10 ^ (((len - 1 : Nat) : Int) + power) :=
            zpow_le_zpow_right₀ (by norm_num) (by omega)
        _ = 10 ^ (len - 1) * 10 ^ power := by rw [zpow_add₀ (by norm_num), zpow_natCast]
        _ ≤ c * 10 ^ power := mul_le_mul_of_nonneg_right hle hten.le
    have hm' : (m : ℚ) + 1 / 2 ≤ 2 ^ 24 := by
      have : (m : ℚ) + 1 ≤ 2 ^ 24 := by exact_mod_cast hf.lt
      linarith
    have hupper : upperBound m q ≤ 2 ^ 24 * 2 ^ (104 : Int) :=
      mul_le_mul hm' (zpow_le_zpow_right₀ (by norm_num) hf.high) (two_zpow_pos q).le (by norm_num)
    have hbound := h.high
    norm_num at hv hupper
    linarith

/-- A decimal near a number reads as that number. -/
theorem toFloat32_near (hf : Finite m q) (hm : 0 < m) (h : Near m q (c * 10 ^ power))
    (negative : Bool) :
    (⟨negative, c, power⟩ : Scientific).toFloat32 = signed negative (layout m q) := by
  have hc := h.coefficient_pos hm
  obtain ⟨hsmall, hlarge⟩ := h.size hf hm
  have hvalue : ((c * pow10 power.toNat : Nat) : ℚ) / (pow10 (-power).toNat : Nat) =
      c * 10 ^ power := by
    rw [Nat.cast_mul, pow10_cast, pow10_cast, mul_div_assoc, zpow_toNat]
  have hbits : nearestBits (c * pow10 power.toNat) (pow10 (-power).toNat) = layout m q :=
    nearestBits_near hf (Nat.mul_pos hc (Nat.pow_pos (by norm_num))) (Nat.pow_pos (by norm_num))
      (hvalue ▸ h)
  simp only [Scientific.toFloat32]
  rw [if_neg (by omega), if_neg (by omega), hbits]

/-- What is written for a finite number reads as the number; zero keeps its sign. -/
theorem positional_reads {negative : Bool} (h : Binary.ofBits x.toBits = .finite negative m q) :
    ∃ d, Scientific.ofChars? (minusIf negative (positional (shortest m q).1 (shortest m q).2)) =
      some d ∧ d.toFloat32 = x := by
  obtain ⟨hf, hx⟩ := signed_layout h
  obtain ⟨whole, fraction, htext, hp⟩ := positional_pointed (shortest m q).1 (shortest m q).2
  rw [htext]
  refine ⟨_, ofChars?_pointed hp negative, ?_⟩
  rcases Nat.eq_zero_or_pos m with rfl | hm
  · have hzero : decimalDigits (whole ++ fraction) = 0 := by
      have hv := hp.value
      simpa [shortest, zpow_ne_zero] using hv
    have hlayout : layout 0 q = 0 := by
      obtain rfl : q = -149 := hf.normal.resolve_right (by norm_num)
      rfl
    simp only [Scientific.toFloat32]
    rw [if_pos (.inl hzero), ← hx, hlayout]
  · have hnear := shortest_near hf hm
    rw [← hp.value] at hnear
    rw [toFloat32_near hf hm hnear, hx]

theorem underscoresOk_of_not_mem : ∀ {text : List Char} {ok : Bool}, '_' ∉ text →
    Reader.underscoresOk ok text = true
  | [], _, _ => rfl
  | c :: text, ok, h => by
    simp only [List.mem_cons, not_or] at h
    have hrest : ∀ ok, Reader.underscoresOk ok text = true := fun ok =>
      underscoresOk_of_not_mem h.2
    simp [Reader.underscoresOk, Ne.symm h.1, hrest]

theorem minusIf_mem {text : List Char} {negative : Bool} {d : Char}
    (h : d ∈ minusIf negative text) : d = '-' ∨ d ∈ text := by
  cases negative with
  | false => exact .inr h
  | true => exact List.mem_cons.mp h

/-- What is written for a number is a text of that number. -/
theorem text_floatText (x : Float32) : FloatText false x (text x) := by
  rw [text]
  cases h : Binary.ofBits x.toBits with
  | nan =>
    have hword : FloatText false (.ofBits 0x7fc00000) (['N', 'a', 'N'] ++ []) :=
      .word (by decide) (by simp)
    rwa [ofBits_nan h] at hword
  | infinite negative =>
    have hup : FloatText false (.ofBits 0x7f800000) (['i', 'n', 'f'] ++ []) :=
      .word (by decide) (by simp)
    have hdown : FloatText false (.ofBits 0xff800000) (['-', 'i', 'n', 'f'] ++ []) :=
      .word (by decide) (by simp)
    rw [← signed_infinity h]
    cases negative with
    | false => exact hup
    | true => exact hdown
  | finite negative m q =>
    obtain ⟨d, hd, hx⟩ := positional_reads h
    have hchars : ∀ c ∈ minusIf negative (positional (shortest m q).1 (shortest m q).2),
        isFloatChar c = true ∧ c ≠ '_' := by
      obtain ⟨whole, fraction, htext, hp⟩ := positional_pointed (shortest m q).1 (shortest m q).2
      intro c hc
      rw [htext] at hc
      rcases minusIf_mem hc with rfl | hc
      · decide
      · rcases List.mem_append.mp hc with hc | hc
        · have := hp.digits c (List.mem_append_left _ hc)
          exact ⟨by simp [isFloatChar, this], digit_ne this rfl⟩
        · rcases List.mem_cons.mp hc with rfl | hc
          · decide
          · have := hp.digits c (List.mem_append_right _ hc)
            exact ⟨by simp [isFloatChar, this], digit_ne this rfl⟩
    simp only
    generalize minusIf negative (positional (shortest m q).1 (shortest m q).2) = run at *
    have hno : '_' ∉ run := fun hmem => (hchars '_' hmem).2 rfl
    have hfilter : run.filter (· ≠ '_') = run := by
      apply List.filter_eq_self.mpr
      exact fun c hc => decide_eq_true (hchars c hc).2
    rw [← hx, ← List.append_nil run]
    refine .digits (fun c hc => (hchars c hc).1) (fun hhead => ?_) (underscoresOk_of_not_mem hno)
      (hfilter.symm ▸ hd) (by simp)
    exact hno (List.mem_of_mem_head? hhead)

end Sequencer.Decimal
