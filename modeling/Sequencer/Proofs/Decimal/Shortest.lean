import Mathlib.Data.Nat.Cast.Order.Field
import Mathlib.Tactic.LinearCombination
import Sequencer.Decimal.Shortest
import Sequencer.Proofs.Decimal.Nearest

/-!
# The shortest decimal is near

What is written for a number is a point of a decimal grid that is near the number. With nine digits
the grid is so fine that one of the two points around the number is always near, so the search ends.
-/

set_option autoImplicit false

namespace Sequencer.Decimal

variable {m c n : Nat} {q power : Int}

/-- The grid holds the number, its bounds and its own step in units of one and the same size. -/
theorem grid_scale (hm : 0 < m) (q power : Int) : ∃ k : ℚ, 0 < k ∧
    ((grid m q power).value : ℚ) = m * 2 ^ q * k ∧
    ((grid m q power).low : ℚ) = lowerBound m q * k ∧
    ((grid m q power).high : ℚ) = upperBound m q * k ∧
    ((grid m q power).unit : ℚ) = 10 ^ power * k := by
  refine ⟨2 ^ (2 - q).toNat * 10 ^ (-power).toNat, by positivity, ?_⟩
  have hstep : (2 : ℚ) ^ q * 2 ^ (2 - q).toNat = 4 * 2 ^ (q - 2).toNat := by
    have hz := zpow_toNat 2 (q - 2)
    have hq : (2 : ℚ) ^ q = 2 ^ (q - 2) * 4 := by
      rw [zpow_sub₀ (by norm_num)]
      norm_num
    rw [hq, ← hz, show -(q - 2) = 2 - q by omega]
    field_simp
  have hunit : (10 : ℚ) ^ power * 10 ^ (-power).toNat = 10 ^ power.toNat := by
    rw [← zpow_toNat 10 power]
    field_simp
  have hbelow : ((4 * m - (if m = pow2 23 ∧ -149 < q then 1 else 2) : Nat) : ℚ) =
      4 * (m - if m = 2 ^ 23 ∧ -149 < q then 1 / 4 else 1 / 2) := by
    have h23 : pow2 23 = 2 ^ 23 := rfl
    rw [h23]
    split
    · rw [Nat.cast_sub (by omega)]
      push_cast
      ring
    · rw [Nat.cast_sub (by omega)]
      push_cast
      ring
  refine ⟨?_, ?_, ?_, ?_⟩
  · simp only [grid]
    push_cast [pow2_cast, pow10_cast]
    linear_combination (-(m : ℚ) * 10 ^ (-power).toNat) * hstep
  · simp only [grid, lowerBound]
    rw [Nat.cast_mul, hbelow]
    push_cast [pow2_cast, pow10_cast]
    linear_combination (-((m : ℚ) - if m = 2 ^ 23 ∧ -149 < q then 1 / 4 else 1 / 2) *
      10 ^ (-power).toNat) * hstep
  · simp only [grid, upperBound]
    push_cast [pow2_cast, pow10_cast]
    linear_combination (-((m : ℚ) + 1 / 2) * 10 ^ (-power).toNat) * hstep
  · simp only [grid]
    push_cast [pow2_cast, pow10_cast]
    linear_combination (-(2 : ℚ) ^ (2 - q).toNat) * hunit

/-- A point of the grid holds if it is near, and only then. -/
theorem holds_iff (hm : 0 < m) (c : Nat) :
    (grid m q power).holds c = true ↔ Near m q (c * 10 ^ power) := by
  obtain ⟨k, hk, -, hlow, hhigh, hunit⟩ := grid_scale hm q power
  have hpoint : ((c * (grid m q power).unit : Nat) : ℚ) = c * 10 ^ power * k := by
    rw [Nat.cast_mul, hunit]
    ring
  have hle : (grid m q power).low ≤ c * (grid m q power).unit ↔
      lowerBound m q ≤ c * 10 ^ power := by
    rw [← Nat.cast_le (α := ℚ), hpoint, hlow, mul_le_mul_iff_left₀ hk]
  have hlt : (grid m q power).low < c * (grid m q power).unit ↔
      lowerBound m q < c * 10 ^ power := by
    rw [← Nat.cast_lt (α := ℚ), hpoint, hlow, mul_lt_mul_iff_left₀ hk]
  have hle' : c * (grid m q power).unit ≤ (grid m q power).high ↔
      c * 10 ^ power ≤ upperBound m q := by
    rw [← Nat.cast_le (α := ℚ), hpoint, hhigh, mul_le_mul_iff_left₀ hk]
  have hlt' : c * (grid m q power).unit < (grid m q power).high ↔
      c * 10 ^ power < upperBound m q := by
    rw [← Nat.cast_lt (α := ℚ), hpoint, hhigh, mul_lt_mul_iff_left₀ hk]
  have hclosed : (grid m q power).closed = decide (m % 2 = 0) := rfl
  rw [Grid.holds, hclosed]
  simp only [decide_eq_true_eq, hle, hlt, hle', hlt', Bool.decide_and]
  split
  · next heven =>
    simp only [Bool.and_eq_true, decide_eq_true_eq]
    exact ⟨fun h => ⟨h.1, h.2, fun hodd => by omega⟩, fun h => ⟨h.low, h.high⟩⟩
  · next hodd =>
    simp only [Bool.and_eq_true, decide_eq_true_eq]
    exact ⟨fun h => ⟨h.1.le, h.2.le, fun _ => h⟩, fun h => h.strict (by omega)⟩

theorem point?_holds {g : Grid} (h : g.point? = some c) : g.holds c = true := by
  simp only [Grid.point?] at h
  split at h
  · split at h <;> (obtain rfl := Option.some.inj h; assumption)
  · obtain rfl := Option.some.inj h
    assumption
  · obtain rfl := Option.some.inj h
    assumption
  · cases h

/-- The least point above the number is near if a step of the grid is less than half a step of the
number. -/
theorem point?_isSome (hm : 0 < m) (h : (10 : ℚ) ^ power < 2 ^ (q - 1)) :
    ∃ c, (grid m q power).point? = some c := by
  obtain ⟨k, hk, hvalue, -, -, hunit⟩ := grid_scale hm q power
  have hpos : 0 < (grid m q power).unit := by
    have : (0 : ℚ) < (grid m q power).unit := by rw [hunit]; positivity
    exact_mod_cast this
  have hfloor : ((grid m q power).value / (grid m q power).unit : Nat) * (10 : ℚ) ^ power ≤
      m * 2 ^ q := by
    have hle : (((grid m q power).value / (grid m q power).unit *
        (grid m q power).unit : Nat) : ℚ) ≤ (grid m q power).value := by
      exact_mod_cast Nat.div_mul_le_self _ _
    rw [Nat.cast_mul, hvalue, hunit, ← mul_assoc] at hle
    exact le_of_mul_le_mul_right hle hk
  have hceil : (m : ℚ) * 2 ^ q <
      ((grid m q power).value / (grid m q power).unit + 1 : Nat) * (10 : ℚ) ^ power := by
    have hlt : ((grid m q power).value : ℚ) <
        (((grid m q power).value / (grid m q power).unit + 1) * (grid m q power).unit : Nat) := by
      exact_mod_cast Nat.lt_mul_of_div_lt (Nat.lt_succ_self _) hpos
    rw [Nat.cast_mul, hvalue, hunit, ← mul_assoc] at hlt
    exact lt_of_mul_lt_mul_right hlt hk.le
  have hq : (2 : ℚ) ^ (q - 1) = 1 / 2 * 2 ^ q := by
    rw [zpow_sub_one₀ (by norm_num)]
    ring
  have hpow := two_zpow_pos q
  have hnear : Near m q (((grid m q power).value / (grid m q power).unit + 1 : Nat) *
      (10 : ℚ) ^ power) := by
    have hlow : lowerBound m q < m * 2 ^ q := by
      rw [lowerBound]
      split <;> nlinarith
    have hhigh : (((grid m q power).value / (grid m q power).unit + 1 : Nat) : ℚ) *
        (10 : ℚ) ^ power < upperBound m q := by
      rw [upperBound]
      push_cast
      linarith
    exact ⟨(hlow.trans hceil).le, hhigh.le, fun _ => ⟨hlow.trans hceil, hhigh⟩⟩
  have hholds := (holds_iff hm _).mpr hnear
  simp only [Grid.point?, hholds]
  cases (grid m q power).holds ((grid m q power).value / (grid m q power).unit) with
  | false => exact ⟨_, rfl⟩
  | true => exact ⟨_, (apply_ite some _ _ _).symm⟩

/-- The first digit of a number is not zero. -/
theorem pow_length_le {n : Nat} (hn : 0 < n) : 10 ^ ((Nat.toDigits 10 n).length - 1) ≤ n := by
  rcases Nat.eq_zero_or_pos ((Nat.toDigits 10 n).length - 1) with h | h
  · rw [h]
    exact hn
  · by_contra hlt
    have := (Nat.length_toDigits_le_iff (by omega) h).mpr (not_le.mp hlt)
    omega

/-- How many digits stand before the point, or less how many zeros stand behind it. -/
theorem magnitude_le (hf : Finite m q) (hm : 0 < m) :
    (10 : ℚ) ^ (magnitude m q - 1) ≤ m * 2 ^ q := by
  generalize hw : m * pow2 q.toNat * pow10 45 / pow2 (-q).toNat = whole
  have hpos : 0 < whole := by
    rw [← hw]
    apply Nat.div_pos
    · calc pow2 (-q).toNat ≤ pow2 149 := Nat.pow_le_pow_right (by norm_num) (by
            have := hf.low
            omega)
        _ ≤ pow10 45 := by decide +kernel
        _ ≤ m * pow2 q.toNat * pow10 45 :=
            Nat.le_mul_of_pos_left _ (Nat.mul_pos hm (Nat.pow_pos (by norm_num)))
    · exact Nat.pow_pos (by norm_num)
  have hlen : 0 < (Nat.toDigits 10 whole).length := Nat.length_toDigits_pos
  have hle : (whole : ℚ) ≤ m * 2 ^ q * 10 ^ 45 := by
    have hcast := Nat.cast_div_le (α := ℚ) (m := m * pow2 q.toNat * pow10 45) (n := pow2 (-q).toNat)
    rw [hw] at hcast
    push_cast [pow2_cast, pow10_cast] at hcast
    rw [← zpow_toNat 2 q]
    calc (whole : ℚ) ≤ m * 2 ^ q.toNat * 10 ^ 45 / 2 ^ (-q).toNat := hcast
      _ = m * (2 ^ q.toNat / 2 ^ (-q).toNat) * 10 ^ 45 := by ring
  have hexp : magnitude m q - 1 = (((Nat.toDigits 10 whole).length - 1 : Nat) : Int) - 45 := by
    rw [magnitude, hw]
    omega
  have hten : (10 : ℚ) ^ ((Nat.toDigits 10 whole).length - 1) ≤ whole := by
    exact_mod_cast pow_length_le hpos
  rw [hexp, zpow_sub₀ (by norm_num), zpow_natCast, div_le_iff₀ (by positivity)]
  exact_mod_cast hten.trans hle

/-- Nine digits are enough. -/
theorem nine_digits (hf : Finite m q) (hm : 0 < m) :
    (10 : ℚ) ^ (magnitude m q - (9 : Nat)) < 2 ^ (q - 1) := by
  have hle := magnitude_le hf hm
  have hten : (10 : ℚ) ^ (magnitude m q - 1) = 10 ^ 8 * 10 ^ (magnitude m q - (9 : Nat)) := by
    rw [← zpow_natCast, ← zpow_add₀ (by norm_num)]
    congr 1
    omega
  have hhalf : (2 : ℚ) ^ (q - 1) = 1 / 2 * 2 ^ q := by
    rw [zpow_sub_one₀ (by norm_num)]
    ring
  have hlt : (m : ℚ) < 2 ^ 24 := by exact_mod_cast hf.lt
  have hpow := two_zpow_pos q
  have hsize := mul_lt_mul_of_pos_right hlt hpow
  rw [hten] at hle
  rw [hhalf]
  generalize (2 : ℚ) ^ q = step at *
  generalize (10 : ℚ) ^ (magnitude m q - (9 : Nat)) = ninth at *
  norm_num at hle hsize
  linarith

/-- A point that is found is near also when it is written as a power of ten. -/
theorem shortestFrom_some (hm : 0 < m) {digits : Nat}
    (hc : (grid m q (magnitude m q - n)).point? = some c) :
    Near m q ((shortestFrom m q n (digits + 1)).1 *
      10 ^ (shortestFrom m q n (digits + 1)).2) := by
  have hnear := (holds_iff hm c).mp (point?_holds hc)
  simp only [shortestFrom, hc]
  split
  · next hpow =>
    rw [hpow, pow10_cast, ← zpow_natCast, ← zpow_add₀ (by norm_num), add_comm] at hnear
    simpa using hnear
  · exact hnear

/-- The search ends with a point that is near: with nine digits, if not before. -/
theorem shortestFrom_near (hf : Finite m q) (hm : 0 < m) : ∀ digits n, n + digits = 9 →
    Near m q ((shortestFrom m q n (digits + 1)).1 * 10 ^ (shortestFrom m q n (digits + 1)).2) := by
  intro digits
  induction digits with
  | zero =>
    intro n hn
    obtain rfl : n = 9 := hn
    obtain ⟨c, hc⟩ := point?_isSome hm (nine_digits hf hm)
    exact shortestFrom_some hm hc
  | succ digits ih =>
    intro n hn
    cases hc : (grid m q (magnitude m q - n)).point? with
    | some c => exact shortestFrom_some hm hc
    | none =>
      have hrest := ih (n + 1) (by omega)
      rwa [shortestFrom, hc]

/-- The decimal that is written for a number is near the number. -/
theorem shortest_near (hf : Finite m q) (hm : 0 < m) :
    Near m q ((shortest m q).1 * 10 ^ (shortest m q).2) := by
  rw [shortest, if_neg (by omega)]
  exact shortestFrom_near hf hm 8 1 rfl

end Sequencer.Decimal
