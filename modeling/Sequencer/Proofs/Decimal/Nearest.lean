import Mathlib.Algebra.Order.Field.Power
import Mathlib.Data.Rat.Cast.Order
import Mathlib.Tactic.FieldSimp
import Mathlib.Tactic.GCongr
import Mathlib.Tactic.Linarith
import Mathlib.Tactic.NormNum
import Mathlib.Tactic.Positivity
import Sequencer.Proofs.Decimal.Bits

/-!
# The nearest number

The bits found for a fraction are those of every number the fraction is near to: one from which it
is no further than half way to a neighbour, where half way itself belongs to the even one.
-/

set_option autoImplicit false

namespace Sequencer.Decimal

variable {num den m r : Nat} {q : Int} {v : ℚ}

/-- The division leaves the number it is rounded to or the one below, and the remainder tells
which. -/
theorem roundHalfEven_of_mul {a b : Nat} (hb : 0 < b) (hlow : (2 * r - 1 : Int) * b ≤ 2 * a)
    (hhigh : 2 * (a : Int) ≤ (2 * r + 1) * b)
    (htie : r % 2 = 1 → (2 * r - 1 : Int) * b < 2 * a ∧ 2 * (a : Int) < (2 * r + 1) * b) :
    roundHalfEven a b = r := by
  have hdiv : (a : Int) = b * (a / b : Nat) + (a % b : Nat) := by
    exact_mod_cast (Nat.div_add_mod a b).symm
  have hmod := Nat.mod_lt a hb
  simp only [roundHalfEven]
  generalize a / b = k at hdiv
  generalize a % b = t at hdiv hmod
  rw [hdiv] at hlow hhigh htie
  have hrk : r = k ∨ r = k + 1 := by
    have h1 : (2 * (r : Int) - 2 * k - 1) * b < 2 * b := by nlinarith
    have h2 : (-1 : Int) * b < (2 * r - 2 * k + 1) * b := by nlinarith
    have hb' : (0 : Int) < b := by exact_mod_cast hb
    have h1' := lt_of_mul_lt_mul_right h1 hb'.le
    have h2' := lt_of_mul_lt_mul_right h2 hb'.le
    omega
  rcases hrk with rfl | rfl
  · have h1 : 2 * (t : Int) ≤ b := by nlinarith
    have h2 : r % 2 = 1 → 2 * (t : Int) < b := fun h => by nlinarith [htie h]
    split
    · rfl
    · split
      · omega
      · have : r % 2 ≠ 1 := fun h => by have := h2 h; omega
        omega
  · push_cast at hlow htie
    have h1 : (b : Int) ≤ 2 * t := by nlinarith
    have h2 : (k + 1) % 2 = 1 → (b : Int) < 2 * t := fun h => by nlinarith [htie h]
    split
    · omega
    · split
      · rfl
      · have : (k + 1) % 2 ≠ 1 := fun h => by have := h2 h; omega
        omega

/-- The quotient is within a half of what it is rounded to, and a half goes to the even one. -/
theorem roundHalfEven_eq {a b : Nat} (hb : 0 < b) (hlow : (r : ℚ) - 1 / 2 ≤ a / b)
    (hhigh : (a : ℚ) / b ≤ r + 1 / 2)
    (htie : r % 2 = 1 → (r : ℚ) - 1 / 2 < a / b ∧ (a : ℚ) / b < r + 1 / 2) :
    roundHalfEven a b = r := by
  have hpos : (0 : ℚ) < b := by exact_mod_cast hb
  refine roundHalfEven_of_mul hb ?_ ?_ fun h => ?_
  · rw [le_div_iff₀ hpos] at hlow
    have : (2 * r - 1 : ℚ) * b ≤ 2 * a := by linarith
    exact_mod_cast this
  · rw [div_le_iff₀ hpos] at hhigh
    have : 2 * (a : ℚ) ≤ (2 * r + 1) * b := by linarith
    exact_mod_cast this
  · obtain ⟨h1, h2⟩ := htie h
    rw [lt_div_iff₀ hpos] at h1
    rw [div_lt_iff₀ hpos] at h2
    have h1' : (2 * r - 1 : ℚ) * b < 2 * a := by linarith
    have h2' : 2 * (a : ℚ) < (2 * r + 1) * b := by linarith
    exact ⟨by exact_mod_cast h1', by exact_mod_cast h2'⟩

theorem pow2_cast (n : Nat) : ((pow2 n : Nat) : ℚ) = 2 ^ n := by
  simp [pow2]

theorem pow10_cast (n : Nat) : ((pow10 n : Nat) : ℚ) = 10 ^ n := by
  simp [pow10]

theorem zpow_toNat (b : ℚ) (e : Int) :
    b ^ e.toNat / b ^ (-e).toNat = b ^ e := by
  rcases le_total 0 e with h | h
  · obtain ⟨n, rfl⟩ := Int.eq_ofNat_of_zero_le h
    simp
  · obtain ⟨n, hn⟩ := Int.eq_ofNat_of_zero_le (Int.neg_nonneg_of_nonpos h)
    obtain rfl : e = -(n : Int) := by omega
    simp

/-- Scaling by a power of two leaves whole numbers whose quotient is the scaled one. -/
theorem scaled_div (num : Nat) (hden : 0 < den) (e : Int) :
    ((scaled num den e).1 : ℚ) / (scaled num den e).2 = num / den / 2 ^ e ∧
      0 < (scaled num den e).2 := by
  have hpos : (0 : ℚ) < den := by exact_mod_cast hden
  constructor
  · have hz := zpow_toNat 2 e
    simp only [scaled]
    push_cast [pow2_cast]
    rw [← hz]
    field_simp
  · exact Nat.mul_pos hden (Nat.pow_pos (by norm_num))

theorem pow_mul_zpow (n : Nat) (e : Int) : (2 : ℚ) ^ n * 2 ^ e = 2 ^ (e + n) := by
  rw [zpow_add₀ (by norm_num), zpow_natCast, mul_comm]

theorem two_zpow_pos (e : Int) : (0 : ℚ) < 2 ^ e := zpow_pos (by norm_num) e

/-- The leading bits of two numbers bound their quotient. -/
theorem log2_bounds (hnum : 0 < num) (hden : 0 < den) :
    (2 : ℚ) ^ ((Nat.log2 num : Int) - Nat.log2 den - 1) < num / den ∧
      (num : ℚ) / den < 2 ^ ((Nat.log2 num : Int) - Nat.log2 den + 1) := by
  have hpos : (0 : ℚ) < den := by exact_mod_cast hden
  have hlow (n : Nat) (hn : 0 < n) : (2 : ℚ) ^ (Nat.log2 n : Int) ≤ n := by
    rw [zpow_natCast]
    exact_mod_cast Nat.log2_self_le (by omega)
  have hhigh (n : Nat) : (n : ℚ) < 2 ^ ((Nat.log2 n : Int) + 1) := by
    have : (n : ℚ) < 2 ^ (Nat.log2 n + 1) := by exact_mod_cast Nat.lt_log2_self
    exact_mod_cast this
  constructor
  · rw [lt_div_iff₀ hpos]
    calc (2 : ℚ) ^ ((Nat.log2 num : Int) - Nat.log2 den - 1) * den
        < 2 ^ ((Nat.log2 num : Int) - Nat.log2 den - 1) * 2 ^ ((Nat.log2 den : Int) + 1) :=
          mul_lt_mul_of_pos_left (hhigh den) (two_zpow_pos _)
      _ = 2 ^ (Nat.log2 num : Int) := by
          rw [← zpow_add₀ (by norm_num)]
          congr 1
          omega
      _ ≤ num := hlow num hnum
  · rw [div_lt_iff₀ hpos]
    calc (num : ℚ) < 2 ^ ((Nat.log2 num : Int) + 1) := hhigh num
      _ = 2 ^ ((Nat.log2 num : Int) - Nat.log2 den + 1) * 2 ^ (Nat.log2 den : Int) := by
          rw [← zpow_add₀ (by norm_num)]
          congr 1
          omega
      _ ≤ 2 ^ ((Nat.log2 num : Int) - Nat.log2 den + 1) * den :=
          mul_le_mul_of_nonneg_left (hlow den hden) (two_zpow_pos _).le

structure Exponent (v : ℚ) (e : Int) : Prop where
  low : -149 ≤ e
  lt : v < 2 ^ (e + 24)
  normal : e = -149 ∨ 2 ^ (e + 23) ≤ v

/-- A larger exponent leaves less, down to the least exponent. -/
theorem Exponent.max {e : Int} (hlt : v < 2 ^ (e + 24)) (hle : 2 ^ (e + 23) ≤ v) :
    Exponent v (max (-149) e) := by
  rcases le_total (-149) e with h | h
  · rw [max_eq_right h]
    exact ⟨h, hlt, .inr hle⟩
  · rw [max_eq_left h]
    exact ⟨le_rfl, hlt.trans_le (zpow_le_zpow_right₀ (by norm_num) (by omega)), .inl rfl⟩

theorem exponentFor_spec (hnum : 0 < num) (hden : 0 < den) :
    Exponent (num / den) (exponentFor num den) := by
  obtain ⟨hlow, hhigh⟩ := log2_bounds hnum hden
  generalize he : (Nat.log2 num : Int) - Nat.log2 den - 24 = e
  obtain ⟨hdiv, hpos⟩ := scaled_div num hden e
  have hiff : pow2 24 * (scaled num den e).2 ≤ (scaled num den e).1 ↔
      (2 : ℚ) ^ (e + 24) ≤ num / den := by
    have hpos' : (0 : ℚ) < (scaled num den e).2 := by exact_mod_cast hpos
    have hcast : pow2 24 * (scaled num den e).2 ≤ (scaled num den e).1 ↔
        (2 : ℚ) ^ 24 * (scaled num den e).2 ≤ (scaled num den e).1 := by
      rw [← pow2_cast]
      exact_mod_cast Iff.rfl
    rw [hcast, ← le_div_iff₀ hpos', hdiv, le_div_iff₀ (two_zpow_pos e), pow_mul_zpow]
    rfl
  have hfor : exponentFor num den =
      max (-149) (if (2 : ℚ) ^ (e + 24) ≤ num / den then e + 1 else e) := by
    simp only [exponentFor, he, hiff]
  rw [hfor]
  split
  · next h =>
    refine Exponent.max ?_ ?_
    · rwa [show e + 1 + 24 = (Nat.log2 num : Int) - Nat.log2 den + 1 by omega]
    · rwa [show e + 1 + 23 = e + 24 by omega]
  · next h =>
    refine Exponent.max (lt_of_not_ge h) ?_
    rw [show e + 23 = (Nat.log2 num : Int) - Nat.log2 den - 1 by omega]
    exact hlow.le

def lowerBound (m : Nat) (q : Int) : ℚ :=
  (m - if m = 2 ^ 23 ∧ -149 < q then 1 / 4 else 1 / 2) * 2 ^ q

def upperBound (m : Nat) (q : Int) : ℚ := (m + 1 / 2) * 2 ^ q

structure Near (m : Nat) (q : Int) (v : ℚ) : Prop where
  low : lowerBound m q ≤ v
  high : v ≤ upperBound m q
  strict : m % 2 = 1 → lowerBound m q < v ∧ v < upperBound m q

theorem le_lowerBound (m : Nat) (q : Int) : (m - 1 / 2 : ℚ) * 2 ^ q ≤ lowerBound m q := by
  have h := two_zpow_pos q
  rw [lowerBound]
  split <;> nlinarith

/-- A fraction near a number has the number's exponent, or the one below if it is just under a power
of two. -/
theorem Near.exponent (hf : Finite m q) (h : Near m q v) {e : Int} (he : Exponent v e) :
    e = q ∨ (e = q - 1 ∧ m = 2 ^ 23 ∧ v < 2 ^ (q + 23)) := by
  have hpow := two_zpow_pos q
  have hm : (m : ℚ) + 1 / 2 < 2 ^ 24 := by
    have : (m : ℚ) + 1 ≤ 2 ^ 24 := by exact_mod_cast hf.lt
    linarith
  have hupper : v < 2 ^ (q + 24) := by
    calc v ≤ (m + 1 / 2) * 2 ^ q := h.high
      _ < 2 ^ 24 * 2 ^ q := mul_lt_mul_of_pos_right hm hpow
      _ = 2 ^ (q + 24) := pow_mul_zpow 24 q
  rcases lt_trichotomy e q with hlt | heq | hgt
  · have hq : -149 < q := lt_of_le_of_lt he.low hlt
    have hnorm : 2 ^ 23 ≤ m := hf.normal.resolve_left (by omega)
    have hv : v < 2 ^ (q + 23) :=
      he.lt.trans_le (zpow_le_zpow_right₀ (by norm_num) (by omega))
    have hv' : v < 2 ^ 23 * 2 ^ q := by rwa [pow_mul_zpow]
    have hm23 : m = 2 ^ 23 := by
      by_contra hne
      have hm' : (2 : ℚ) ^ 23 + 1 ≤ m := by
        have : 2 ^ 23 + 1 ≤ m := by omega
        exact_mod_cast this
      have := (le_lowerBound m q).trans h.low
      nlinarith
    have hlow : ((2 : ℚ) ^ 23 - 1 / 4) * 2 ^ q ≤ v := by
      have := h.low
      rw [lowerBound, if_pos ⟨hm23, hq⟩, hm23] at this
      exact_mod_cast this
    have he1 : q - 1 ≤ e := by
      by_contra hne
      have hle : (2 : ℚ) ^ (e + 24) ≤ 2 ^ (q + 22) :=
        zpow_le_zpow_right₀ (by norm_num) (by omega)
      have h22 : (2 : ℚ) ^ (q + 22) = 2 ^ 22 * 2 ^ q := (pow_mul_zpow 22 q).symm
      have := he.lt
      nlinarith
    exact .inr ⟨by omega, hm23, hv⟩
  · exact .inl heq
  · have hle : (2 : ℚ) ^ (q + 24) ≤ v :=
      (zpow_le_zpow_right₀ (by norm_num) (by omega)).trans (he.normal.resolve_left (by
        have := hf.low
        omega))
    exact absurd hupper (not_lt.mpr hle)

/-- The bits found for a fraction are those of the number it is near to. A fraction just under a
power of two is rounded up to it, which carries into the exponent. -/
theorem nearestBits_near (hf : Finite m q) (hnum : 0 < num) (hden : 0 < den)
    (h : Near m q (num / den)) : nearestBits num den = layout m q := by
  have he := exponentFor_spec hnum hden
  have hinf := hf.layout_lt
  have h23 : pow2 23 = 2 ^ 23 := rfl
  rw [nearestBits, if_neg (by omega)]
  simp only
  generalize exponentFor num den = e at he
  obtain ⟨hdiv, hpos⟩ := scaled_div num hden e
  have hround (r : Nat) (hr : layout m q = (e + 149).toNat * 2 ^ 23 + r)
      (hs : roundHalfEven (scaled num den e).1 (scaled num den e).2 = r) :
      min infinityBits ((e + 149).toNat * pow2 23 +
        roundHalfEven (scaled num den e).1 (scaled num den e).2) = layout m q := by
    rw [hs, h23, ← hr]
    exact min_eq_right hinf.le
  rcases h.exponent hf he with rfl | ⟨rfl, rfl, hlt⟩
  · refine hround m rfl (roundHalfEven_eq hpos ?_ ?_ fun hodd => ?_)
    all_goals rw [hdiv]
    · rw [le_div_iff₀ (two_zpow_pos _)]
      exact (le_lowerBound m _).trans h.low
    · rw [div_le_iff₀ (two_zpow_pos _)]
      exact h.high
    · rw [lt_div_iff₀ (two_zpow_pos _), div_lt_iff₀ (two_zpow_pos _)]
      exact ⟨(le_lowerBound m _).trans_lt (h.strict hodd).1, (h.strict hodd).2⟩
  · have hq : -149 ≤ q - 1 := he.low
    have hhalf : (2 : ℚ) ^ q = 2 * 2 ^ (q - 1) := by
      rw [zpow_sub_one₀ (by norm_num)]
      ring
    have hlow : ((2 : ℚ) ^ 23 - 1 / 4) * 2 ^ q ≤ num / den := by
      have := h.low
      rw [lowerBound, if_pos ⟨rfl, by omega⟩] at this
      exact_mod_cast this
    have hlt' : (num : ℚ) / den < 2 ^ 23 * 2 ^ q := by rwa [pow_mul_zpow]
    have hpow := two_zpow_pos (q - 1)
    obtain ⟨r, hr⟩ : ∃ r : Nat, r = 2 ^ 24 := ⟨_, rfl⟩
    have hr' : (r : ℚ) = 2 ^ 24 := by exact_mod_cast hr
    refine hround r ?_ (roundHalfEven_eq hpos ?_ ?_ fun hodd => ?_)
    · rw [layout]
      omega
    · rw [hdiv, le_div_iff₀ hpow, hr']
      rw [hhalf] at hlow
      linarith
    · rw [hdiv, div_le_iff₀ hpow, hr']
      rw [hhalf] at hlt'
      linarith
    · omega

end Sequencer.Decimal
