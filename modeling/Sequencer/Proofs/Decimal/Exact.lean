import Sequencer.Proofs.Decimal.Nearest

/-!
# Sums without rounding

Rounding leaves a rational number alone that is a single-precision number. So one times a number is
the number, and a sum of two finite numbers that is a third one is that third one.
-/

set_option autoImplicit false

namespace Sequencer.Decimal

open Float.Model Float.Model.UnpackedFloat

variable {m : Nat} {e : Int} {s : Sign}

theorem unpack_finite {b : BitVec Format.binary32.numBits} {hm : 0 < m}
    (h : UnpackedFloat.unpack Format.binary32 b = .finite s m e hm) : Finite m e := by
  have hmantissa : (unpackMantissa b).toNat < 2 ^ 23 := (unpackMantissa b).isLt
  have hexponent : (unpackExponent b).toNat < 2 ^ 8 := (unpackExponent b).isLt
  have hbias : Format.binary32.exponentBias = 127 := rfl
  have hwidth : Format.binary32.mantissaBitsWithoutImplicit = 23 := rfl
  have himplicit := toNat_implicit (unpackMantissa b)
  simp only [UnpackedFloat.unpack, hbias] at h
  split at h
  · split at h <;> cases h
  · next hne =>
    have hne : (unpackExponent b).toNat ≠ 255 := fun h255 => hne (BitVec.eq_of_toNat_eq h255)
    split at h
    · next he0 =>
      have he0 : (unpackExponent b).toNat = 0 := congrArg BitVec.toNat he0
      split at h
      · cases h
      · cases h
        exact ⟨by omega, by omega, by omega, .inl (by omega)⟩
    · next he0 =>
      have he0 : (unpackExponent b).toNat ≠ 0 := fun h0 => he0 (BitVec.eq_of_toNat_eq h0)
      cases h
      exact ⟨by omega, by omega, by omega, .inr (by omega)⟩

theorem pack_model (x : Float32) : Float32.ofModel (.pack x.toModel.unpack) = x := by
  obtain ⟨⟨bits, valid⟩⟩ := x
  simp only [Float32.Model.unpack, Float32.Model.pack, pack_unpack valid]

theorem Finite.target (hf : Finite m e) (hm : 0 < m) :
    Format.binary32.targetExponent (totalExponent m e) = e := by
  have hbits : Format.binary32.mantissaBits = 24 := rfl
  have hmin : Format.binary32.minExponent = -149 := rfl
  obtain ⟨hlow, -, hlt, hnormal⟩ := hf
  have hlog : m.log2 < 24 := (Nat.log2_lt hm.ne').mpr hlt
  rw [Format.targetExponent, totalExponent, hbits, hmin]
  rcases hnormal with rfl | hnormal
  · omega
  · have hlog' : 23 ≤ m.log2 := (Nat.le_log2 hm.ne').mpr hnormal
    omega

theorem totalExponent_shift (hm : 0 < m) (e : Int) (k : Nat) :
    totalExponent (m * 2 ^ k) (e - k) = totalExponent m e := by
  have hlog : (m * 2 ^ k).log2 = m.log2 + k := by
    have hpos : m * 2 ^ k ≠ 0 := by positivity
    rw [Nat.log2_eq_iff hpos]
    constructor
    · rw [pow_add]
      exact Nat.mul_le_mul_right _ (Nat.log2_self_le hm.ne')
    · rw [show m.log2 + k + 1 = m.log2 + 1 + k by omega, pow_add]
      exact Nat.mul_lt_mul_of_pos_right Nat.lt_log2_self (by positivity)
  rw [totalExponent, totalExponent, hlog]
  push_cast
  ring

theorem shift_exact (m k : Nat) : (ExtendedMantissa.mk (m * 2 ^ k) false false) >>> k =
    ExtendedMantissa.mk m false false := by
  show k.repeat ExtendedMantissa.shiftRightOne _ = _
  induction k generalizing m with
  | zero => simp [Nat.repeat]
  | succ k ih =>
    rw [Nat.repeat, show m * 2 ^ (k + 1) = m * 2 * 2 ^ k by ring, ih (m * 2)]
    simp [ExtendedMantissa.shiftRightOne]

theorem roundWithAccuracy_exact (hf : Finite m e) (hm : 0 < m) (s : Sign) (k : Nat) :
    roundWithAccuracy Format.binary32 s (m * 2 ^ k) (e - k) .exact = .finite s m e hm := by
  have hfirst : shiftToTargetExponent Format.binary32 (m * 2 ^ k) (e - k) .exact =
      (⟨m, false, false⟩, e) := by
    have htarget := (totalExponent_shift hm e k).symm ▸ hf.target hm
    rw [shiftToTargetExponent, htarget, shiftToExponent, show (e - (e - k)).toNat = k by omega]
    exact Prod.ext (shift_exact m k) (by simp)
  have hsecond : shiftToTargetExponent Format.binary32 m e .exact = (⟨m, false, false⟩, e) := by
    rw [shiftToTargetExponent, hf.target hm, shiftToExponent, show (e - e).toNat = 0 by omega]
    exact Prod.ext rfl (by simp)
  have hrounded : (ExtendedMantissa.mk m false false).roundedMantissa = m := rfl
  simp only [roundWithAccuracy, hfirst, hrounded, hsecond, hm.ne', dite_false]

/-- A number that can be written with 24 bits is not rounded. -/
theorem round_exact (hf : Finite m e) (hm : 0 < m) (s : Sign) {n : Nat} {q : Int}
    (h : (n : ℚ) * 2 ^ q = m * 2 ^ e) :
    UnpackedFloat.round Format.binary32 s n q = .finite s m e hm := by
  rcases le_total q e with hq | hq
  · obtain ⟨k, rfl⟩ := Int.le.dest hq
    obtain rfl : n = m * 2 ^ k := by
      rw [← pow_mul_zpow, ← mul_assoc] at h
      exact_mod_cast mul_right_cancel₀ (two_zpow_pos q).ne' h
    have htarget : Format.binary32.targetExponent (totalExponent (m * 2 ^ k) q) = q + k := by
      rw [← hf.target hm, ← totalExponent_shift hm (q + k) k, add_sub_cancel_right]
    have hround := roundWithAccuracy_exact hf hm s k
    rw [add_sub_cancel_right] at hround
    simp only [UnpackedFloat.round, htarget, decreaseExponent, sub_add_cancel_left,
      Int.toNat_neg_natCast, Nat.shiftLeft_zero, Nat.cast_zero, sub_zero]
    exact hround
  · obtain ⟨k, rfl⟩ := Int.le.dest hq
    obtain rfl : m = n * 2 ^ k := by
      rw [← pow_mul_zpow, ← mul_assoc] at h
      exact_mod_cast (mul_right_cancel₀ (two_zpow_pos e).ne' h).symm
    have hn : 0 < n := Nat.pos_of_mul_pos_right hm
    have htarget : Format.binary32.targetExponent (totalExponent n (e + k)) = e := by
      rw [← totalExponent_shift hn (e + k) k, add_sub_cancel_right, hf.target hm]
    have hround := roundWithAccuracy_exact hf hm s 0
    rw [pow_zero, mul_one, Nat.cast_zero, sub_zero] at hround
    simp only [UnpackedFloat.round, htarget, decreaseExponent, add_sub_cancel_left,
      Int.toNat_natCast, Nat.shiftLeft_eq, add_sub_cancel_right]
    exact hround

def Stands (v : ℚ) : UnpackedFloat → Prop
  | .zero _ => v = 0
  | .finite s m e _ => Finite m e ∧ v = s.apply m * 2 ^ e
  | _ => False

inductive Same : UnpackedFloat → UnpackedFloat → Prop
  | zero (s s' : Sign) : Same (.zero s) (.zero s')
  | refl (u : UnpackedFloat) : Same u u

theorem normalize_exact {w : UnpackedFloat} {v : ℚ} (hw : Stands v w) {n q : Int} 
    (h : (n : ℚ) * 2 ^ q = v) (zeroSign : Sign) :
    Same (normalize Format.binary32 n q zeroSign) w := by
  cases w with
  | notANumber => exact hw.elim
  | infinity s => exact hw.elim
  | zero s =>
    obtain rfl : n = 0 := by
      rw [hw] at h
      exact_mod_cast (mul_eq_zero.mp h).resolve_right (two_zpow_pos q).ne'
    exact .zero _ _
  | finite s m e hm =>
    obtain ⟨hf, rfl⟩ := hw
    have hq := two_zpow_pos q
    have hpos : (0 : ℚ) < m * 2 ^ e := mul_pos (by exact_mod_cast hm) (two_zpow_pos e)
    cases s with
    | positive =>
      simp only [Sign.apply, Int.cast_natCast] at h
      have hn : 0 < n := by exact_mod_cast pos_of_mul_pos_left (h ▸ hpos) hq.le
      have hround : UnpackedFloat.round Format.binary32 .positive n.toNat q = _ :=
        round_exact hf hm .positive (by rw [← Int.cast_natCast, Int.toNat_of_nonneg hn.le, h])
      rw [UnpackedFloat.normalize, Int.compare_eq_gt.mpr hn]
      exact hround ▸ .refl _
    | negative =>
      simp only [Sign.apply, Int.cast_neg, Int.cast_natCast, neg_mul] at h
      have h : ((-n : Int) : ℚ) * 2 ^ q = m * 2 ^ e := by
        rw [Int.cast_neg, neg_mul, h, neg_neg]
      have hn : 0 < -n := by exact_mod_cast pos_of_mul_pos_left (h ▸ hpos) hq.le
      have hround : UnpackedFloat.round Format.binary32 .negative (-n).toNat q = _ :=
        round_exact hf hm .negative (by rw [← Int.cast_natCast, Int.toNat_of_nonneg hn.le, h])
      rw [UnpackedFloat.normalize, Int.compare_eq_lt.mpr (by omega)]
      exact hround ▸ .refl _

theorem Stands.same {v : ℚ} {u w : UnpackedFloat} (hu : Stands v u) (hw : Stands v w) :
    Same u w := by
  cases u with
  | notANumber => exact hu.elim
  | infinity s => exact hu.elim
  | zero s =>
    obtain rfl : v = 0 := hu
    exact normalize_exact hw (n := 0) (q := 0) (by simp) s
  | finite s m e hm =>
    have hself := normalize_exact hu (n := s.apply m) (q := e) hu.2.symm .positive
    have hother := normalize_exact hw (n := s.apply m) (q := e) hu.2.symm .positive
    generalize UnpackedFloat.normalize Format.binary32 (s.apply m) e .positive = r at hself hother
    cases hself
    exact hother

theorem apply_shiftLeft (s : Sign) (m : Nat) {e q : Int} (h : q ≤ e) :
    ((s.apply (m <<< (e - q).toNat : Nat) : Int) : ℚ) * 2 ^ q = s.apply m * 2 ^ e := by
  obtain ⟨k, rfl⟩ := Int.le.dest h
  rw [add_sub_cancel_left, Int.toNat_natCast, Nat.shiftLeft_eq, ← pow_mul_zpow]
  cases s <;> simp only [Sign.apply] <;> push_cast <;> ring

theorem add_stands {u w z : UnpackedFloat} {a b : ℚ} (hu : Stands a u) (hw : Stands b w)
    (hz : Stands (a + b) z) : Same (UnpackedFloat.add Format.binary32 u w) z := by
  cases u with
  | notANumber => exact hu.elim
  | infinity s => exact hu.elim
  | zero s =>
    obtain rfl : a = 0 := hu
    rw [zero_add] at hz
    cases w with
    | notANumber => exact hw.elim
    | infinity s => exact hw.elim
    | zero s' =>
      obtain ⟨s, h⟩ : ∃ t, UnpackedFloat.add Format.binary32 (.zero s) (.zero s') = .zero t := by
        cases s <;> cases s' <;> exact ⟨_, rfl⟩
      rw [h]
      exact Stands.same hw hz
    | finite s' m e hm => exact Stands.same hw hz
  | finite s m e hm =>
    cases w with
    | notANumber => exact hw.elim
    | infinity s => exact hw.elim
    | zero s' =>
      obtain rfl : b = 0 := hw
      rw [add_zero] at hz
      exact Stands.same hu hz
    | finite s' m' e' hm' =>
      refine normalize_exact hz ?_ .positive
      rw [Int.cast_add, add_mul, apply_shiftLeft s m (min_le_left e e'),
        apply_shiftLeft s' m' (min_le_right e e'), hu.2, hw.2]

def value? (x : Float32) : Option ℚ :=
  match x.toModel.unpack with
  | .zero _ => some 0
  | .finite s m e _ => some (s.apply m * 2 ^ e)
  | _ => none

theorem value?_stands {x : Float32} {v : ℚ} (h : value? x = some v) :
    Stands v x.toModel.unpack := by
  rw [value?] at h
  cases hx : x.toModel.unpack with
  | notANumber => simp [hx] at h
  | infinity s => simp [hx] at h
  | zero s =>
    rw [hx] at h
    exact (Option.some.inj h).symm
  | finite s m e hm =>
    rw [hx] at h
    exact ⟨unpack_finite hx, (Option.some.inj h).symm⟩

theorem Stands.beq_self {v : ℚ} {u : UnpackedFloat} (h : Stands v u) :
    UnpackedFloat.beq u u = true := by
  cases u with
  | notANumber => exact h.elim
  | infinity s => exact h.elim
  | zero s => rfl
  | finite s m e hm => cases s <;> simp [UnpackedFloat.beq, UnpackedFloat.compare]

theorem Same.beq {u : UnpackedFloat} {x : Float32} {v : ℚ} (h : Same u x.toModel.unpack)
    (hx : Stands v x.toModel.unpack) : (Float32.ofModel (.pack u) == x) = true := by
  generalize hw : x.toModel.unpack = w at h
  cases h with
  | zero s s' =>
    show UnpackedFloat.beq (Float32.Model.pack (.zero s)).unpack x.toModel.unpack = true
    rw [hw]
    cases s <;> rfl
  | refl =>
    rw [← hw, pack_model]
    exact hx.beq_self

/-- If the sum of two numbers is a number, it is what adding them gives. -/
theorem add_exact {x y z : Float32} {a b : ℚ} (hx : value? x = some a) (hy : value? y = some b)
    (hz : value? z = some (a + b)) : (x + y == z) = true :=
  (add_stands (value?_stands hx) (value?_stands hy) (value?_stands hz)).beq (value?_stands hz)

theorem one_unpack :
    (1 : Float32).toModel.unpack = .finite .positive (2 ^ 23) (-23) (by decide) := by
  rfl

theorem times_one (x : Float32) : x * 1 = x := by
  have h : UnpackedFloat.mul Format.binary32 x.toModel.unpack (1 : Float32).toModel.unpack =
      x.toModel.unpack := by
    rw [one_unpack]
    cases hx : x.toModel.unpack with
    | notANumber => rfl
    | infinity s => cases s <;> rfl
    | zero s => cases s <;> rfl
    | finite s m e hm =>
      have hs : s * .positive = s := by cases s <;> rfl
      rw [UnpackedFloat.mul, hs]
      exact roundWithAccuracy_exact (unpack_finite hx) hm s 23
  show Float32.ofModel (.pack (UnpackedFloat.mul Format.binary32 _ _)) = x
  rw [h, pack_model]


end Sequencer.Decimal
