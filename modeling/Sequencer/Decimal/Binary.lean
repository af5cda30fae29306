/-!
# Single precision in exact arithmetic

A single-precision number is a sign, a mantissa and a power of two. This module takes its bits
apart and finds the bits nearest to a positive fraction, both in whole numbers.
-/

set_option autoImplicit false

namespace Sequencer.Decimal

inductive Binary where
  | nan
  | infinite (negative : Bool)
  /-- Plus or minus `mantissa * 2 ^ exponent`. -/
  | finite (negative : Bool) (mantissa : Nat) (exponent : Int)
  deriving DecidableEq

def pow2 (n : Nat) : Nat := Nat.pow 2 n

def pow10 (n : Nat) : Nat := Nat.pow 10 n

def Binary.ofBits (bits : UInt32) : Binary :=
  let n := bits.toNat
  let negative : Bool := pow2 31 ≤ n
  let field : Nat := n / pow2 23 % 256
  let fraction : Nat := n % pow2 23
  if field = 255 then
    if fraction = 0 then .infinite negative else .nan
  else if field = 0 then .finite negative fraction (-149)
  else .finite negative (pow2 23 + fraction) ((field : Int) - 150)

def roundHalfEven (num den : Nat) : Nat :=
  let q := num / den
  let r := num % den
  if 2 * r < den then q
  else if den < 2 * r then q + 1
  else q + q % 2

def scaled (num den : Nat) (e : Int) : Nat × Nat :=
  (num * pow2 (-e).toNat, den * pow2 e.toNat)

def exponentFor (num den : Nat) : Int :=
  let e : Int := (Nat.log2 num : Int) - Nat.log2 den - 24
  let s := scaled num den e
  max (-149) (if pow2 24 * s.2 ≤ s.1 then e + 1 else e)

def infinityBits : Nat := 255 * pow2 23

/-- The bits, sign left off, of the number nearest to `num / den`. A mantissa that rounds up to
the next power of two carries into the exponent field, as the layout of the bits wants. -/
def nearestBits (num den : Nat) : Nat :=
  if num = 0 then 0
  else
    let e := exponentFor num den
    let s := scaled num den e
    min infinityBits ((e + 149).toNat * pow2 23 + roundHalfEven s.1 s.2)

def signed (negative : Bool) (magnitude : Nat) : Float32 :=
  .ofBits (UInt32.ofNat (if negative then pow2 31 + magnitude else magnitude))

end Sequencer.Decimal
