import Mathlib
import Sequencer.Decimal.Binary

/-!
# The bits of a number

A single-precision number is its bits, since there is but one that is not a number. A finite one is
laid out as its exponent and its mantissa, and reading its bits back gives the number.
-/

set_option autoImplicit false

namespace Sequencer.Decimal

open Float.Model Float.Model.UnpackedFloat

theorem toNat_packComponents (s : Sign) (e : BitVec 8) (m : BitVec 23) :
    (packComponents Format.binary32 s e m).toNat =
      s.toBitVec.toNat * 2 ^ 31 + e.toNat * 2 ^ 23 + m.toNat := by
  rw [packComponents, BitVec.toNat_append, BitVec.toNat_append,
    ← Nat.shiftLeft_add_eq_or_of_lt m.isLt, ← Nat.shiftLeft_add_eq_or_of_lt e.isLt]
  simp only [Nat.shiftLeft_eq]
  ring

theorem toNat_fields (b : BitVec Format.binary32.numBits) :
    (unpackSign b).toNat = b.toNat / 2 ^ 31 ∧ (unpackExponent b).toNat = b.toNat / 2 ^ 23 % 2 ^ 8 ∧
      (unpackMantissa b).toNat = b.toNat % 2 ^ 23 := by
  have hb : b.toNat < 2 ^ 32 := b.isLt
  refine ⟨?_, ?_, ?_⟩
  · simp [unpackSign, Nat.shiftRight_eq_div_pow]
    omega
  · simp [unpackExponent, Nat.shiftRight_eq_div_pow]
  · simp [unpackMantissa, Nat.shiftRight_eq_div_pow]

theorem packComponents_unpack (b : BitVec Format.binary32.numBits) :
    packComponents Format.binary32 (Sign.ofBitVec (unpackSign b)) (unpackExponent b)
      (unpackMantissa b) = b := by
  have hsign : (Sign.ofBitVec (unpackSign b)).toBitVec = unpackSign b := by
    rcases BitVec.eq_zero_or_eq_one (unpackSign b) with h | h <;>
      simp [h, Sign.ofBitVec, Sign.toBitVec]
  obtain ⟨hs, he, hm⟩ := toNat_fields b
  apply BitVec.eq_of_toNat_eq
  rw [toNat_packComponents, hsign, hs, he, hm]
  omega

/-- The leading bit that a normal number leaves out. -/
theorem toNat_implicit (m : BitVec 23) : (1#1 ++ m).toNat = 2 ^ 23 + m.toNat := by
  rw [BitVec.toNat_append, ← Nat.shiftLeft_add_eq_or_of_lt m.isLt]
  rfl

theorem pack_subnormal {b : BitVec Format.binary32.numBits} (he : unpackExponent b = 0#8)
    (hm : (unpackMantissa b).toNat ≠ 0) {e : Int} (h : 0 < (unpackMantissa b).toNat)
    (hval : e = ((unpackExponent b).toNat : Int) -
      (Format.binary32.exponentBias + Format.binary32.mantissaBitsWithoutImplicit) + 1) :
    UnpackedFloat.pack Format.binary32
      (.finite (Sign.ofBitVec (unpackSign b)) (unpackMantissa b).toNat e h) = b := by
  have hb := packComponents_unpack b
  have hbias : Format.binary32.exponentBias = 127 := rfl
  have hmant : Format.binary32.mantissaBits = 24 := rfl
  have he0 : (unpackExponent b).toNat = 0 := by rw [he]; rfl
  have hlog : (unpackMantissa b).toNat.log2 < 23 := (Nat.log2_lt hm).mpr (unpackMantissa b).isLt
  subst hval
  simp only [UnpackedFloat.pack, hbias, hmant, he0]
  rw [if_neg (by omega), if_neg (by omega)]
  rw [he] at hb
  simpa using hb

theorem pack_normal {b : BitVec Format.binary32.numBits} (he : (unpackExponent b).toNat < 255)
    {e : Int} (h : 0 < (1#1 ++ unpackMantissa b).toNat)
    (hval : e = ((unpackExponent b).toNat : Int) -
      (Format.binary32.exponentBias + Format.binary32.mantissaBitsWithoutImplicit)) :
    UnpackedFloat.pack Format.binary32
      (.finite (Sign.ofBitVec (unpackSign b)) (1#1 ++ unpackMantissa b).toNat e h) = b := by
  have hb := packComponents_unpack b
  have hbias : Format.binary32.exponentBias = 127 := rfl
  have hmant : Format.binary32.mantissaBits = 24 := rfl
  have hm : (unpackMantissa b).toNat < 2 ^ 23 := (unpackMantissa b).isLt
  have hwidth : Format.binary32.mantissaBitsWithoutImplicit = 23 := rfl
  have hlog : (1#1 ++ unpackMantissa b).toNat.log2 = 23 := by
    rw [toNat_implicit]
    exact (Nat.log2_eq_iff (by omega)).mpr ⟨by omega, by omega⟩
  have hexp : (e + (127 : Nat) + (23 : Nat)).toNat = (unpackExponent b).toNat := by
    rw [hbias, hwidth] at hval
    omega
  have hmantissa : BitVec.ofNat 23 (1#1 ++ unpackMantissa b).toNat = unpackMantissa b := by
    apply BitVec.eq_of_toNat_eq
    rw [BitVec.toNat_ofNat, toNat_implicit]
    omega
  simp only [UnpackedFloat.pack, hbias, hmant, hlog, hexp, hmantissa]
  rw [if_neg (by omega)]
  simpa using hb

theorem pack_unpack {b : BitVec Format.binary32.numBits} (h : Format.binary32.Valid b) :
    UnpackedFloat.pack Format.binary32 (UnpackedFloat.unpack Format.binary32 b) = b := by
  have hb := packComponents_unpack b
  rw [UnpackedFloat.unpack]
  simp only
  split
  · next he =>
    split
    · next hm =>
      rw [he, hm] at hb
      exact hb
    · next hm => exact (h.eq_packedNaN he hm).symm
  · next he =>
    split
    · next he0 =>
      split
      · next hm =>
        rw [he0, hm] at hb
        exact hb
      · next hm =>
        exact pack_subnormal he0 (fun h0 => hm (BitVec.eq_of_toNat_eq h0)) _ rfl
    · have hne : (unpackExponent b).toNat ≠ (-1#8).toNat := fun h => he (BitVec.eq_of_toNat_eq h)
      have hneg : (-1#8).toNat = 255 := rfl
      have hlt : (unpackExponent b).toNat < 256 := (unpackExponent b).isLt
      exact pack_normal (by omega) _ rfl

theorem ofBits_toBits (x : Float32) : Float32.ofBits x.toBits = x := by
  obtain ⟨⟨bits, valid⟩⟩ := x
  have h := pack_unpack valid
  simp only [Float32.toBits, Float32.ofBits, Float32.Model.ofBits, Float32.Model.pack, h]

/-- There is one number that is not a number. -/
theorem ofBits_nan {x : Float32} (h : Binary.ofBits x.toBits = .nan) :
    Float32.ofBits 0x7fc00000 = x := by
  have hback := ofBits_toBits x
  have h23 : pow2 23 = 2 ^ 23 := rfl
  have hnan : x.toBits.toBitVec = packedNaN Format.binary32 := by
    obtain ⟨-, he, hm⟩ := toNat_fields x.toBits.toBitVec
    simp only [Binary.ofBits, h23] at h
    split at h
    · split at h
      · cases h
      · next h255 h0 =>
        refine x.toModel.valid.eq_packedNaN (BitVec.eq_of_toNat_eq (he.trans h255)) fun hz => ?_
        exact h0 (hm.symm.trans (congrArg BitVec.toNat hz))
    · split at h <;> cases h
  have hx : x.toBits = 0x7fc00000 := UInt32.eq_of_toBitVec_eq hnan
  rw [← hx, hback]

structure Finite (m : Nat) (q : Int) : Prop where
  low : -149 ≤ q
  high : q ≤ 104
  lt : m < 2 ^ 24
  normal : q = -149 ∨ 2 ^ 23 ≤ m

def layout (m : Nat) (q : Int) : Nat := (q + 149).toNat * 2 ^ 23 + m

theorem Finite.layout_lt {m : Nat} {q : Int} (h : Finite m q) : layout m q < infinityBits := by
  have hinf : infinityBits = 255 * 2 ^ 23 := rfl
  obtain ⟨hlow, hhigh, hlt, -⟩ := h
  rw [layout, hinf]
  omega

/-- A number that is finite has the bits of its parts, and reading these gives it back. -/
theorem signed_layout {x : Float32} {negative : Bool} {m : Nat} {q : Int}
    (h : Binary.ofBits x.toBits = .finite negative m q) :
    Finite m q ∧ signed negative (layout m q) = x := by
  have h31 : pow2 31 = 2 ^ 31 := rfl
  have h23 : pow2 23 = 2 ^ 23 := rfl
  have hlt : x.toBits.toNat < 2 ^ 32 := x.toBits.toNat_lt
  simp only [Binary.ofBits, h31, h23] at h
  have hparts : Finite m q ∧ negative = decide (2 ^ 31 ≤ x.toBits.toNat) ∧
      x.toBits.toNat = (if negative then 2 ^ 31 + layout m q else layout m q) := by
    split at h
    · split at h <;> cases h
    · split at h
      · next h255 h0 =>
        cases h
        refine ⟨⟨by omega, by omega, by omega, .inl rfl⟩, rfl, ?_⟩
        rw [layout]
        simp only [decide_eq_true_eq]
        split <;> omega
      · next h255 h0 =>
        cases h
        refine ⟨⟨by omega, by omega, by omega, .inr (by omega)⟩, rfl, ?_⟩
        rw [layout]
        simp only [decide_eq_true_eq]
        split <;> omega
  obtain ⟨hfin, -, hbits⟩ := hparts
  refine ⟨hfin, ?_⟩
  rw [signed, h31, ← hbits, UInt32.ofNat_toNat, ofBits_toBits]

theorem signed_infinity {x : Float32} {negative : Bool}
    (h : Binary.ofBits x.toBits = .infinite negative) :
    signed negative infinityBits = x := by
  have h31 : pow2 31 = 2 ^ 31 := rfl
  have h23 : pow2 23 = 2 ^ 23 := rfl
  have hinf : infinityBits = 255 * 2 ^ 23 := rfl
  have hlt : x.toBits.toNat < 2 ^ 32 := x.toBits.toNat_lt
  simp only [Binary.ofBits, h31, h23] at h
  have hbits : x.toBits.toNat = if negative then 2 ^ 31 + infinityBits else infinityBits := by
    split at h
    · split at h
      · next h255 h0 =>
        cases h
        rw [hinf]
        simp only [decide_eq_true_eq]
        split <;> omega
      · cases h
    · split at h <;> cases h
  rw [signed, h31, ← hbits, UInt32.ofNat_toNat, ofBits_toBits]

end Sequencer.Decimal
