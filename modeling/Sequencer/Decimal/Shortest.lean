import Sequencer.Decimal.Binary

/-!
# The shortest decimal

The fewest decimal digits that read back as a given number, and among those of that count the
nearest. Written out they never take an exponent and always show a point.
-/

set_option autoImplicit false

namespace Sequencer.Decimal

/-- A binary number beside a decimal grid: `mantissa * 2 ^ exponent` is `value / unit` steps of
`10 ^ power`, and the numbers from `low / unit` to `high / unit` steps round to it. -/
structure Grid where
  value : Nat
  low : Nat
  high : Nat
  unit : Nat
  /-- A bound itself rounds to the number iff the mantissa is even. -/
  closed : Bool

def grid (m : Nat) (q : Int) (power : Int) : Grid :=
  let n := pow2 (q - 2).toNat * pow10 (-power).toNat
  let below := if m = pow2 23 ∧ -149 < q then 1 else 2
  { value := 4 * m * n
    low := (4 * m - below) * n
    high := (4 * m + 2) * n
    unit := pow2 (2 - q).toNat * pow10 power.toNat
    closed := m % 2 = 0 }

def Grid.holds (g : Grid) (c : Nat) : Bool :=
  if g.closed then g.low ≤ c * g.unit ∧ c * g.unit ≤ g.high
  else g.low < c * g.unit ∧ c * g.unit < g.high

def Grid.point? (g : Grid) : Option Nat :=
  let c := g.value / g.unit
  match g.holds c, g.holds (c + 1) with
  | true, true => if 2 * g.value < (2 * c + 1) * g.unit then some c else some (c + 1)
  | true, false => some c
  | false, true => some (c + 1)
  | false, false => none

def magnitude (m : Nat) (q : Int) : Int :=
  let whole := m * pow2 q.toNat * pow10 45 / pow2 (-q).toNat
  (Nat.toDigits 10 whole).length - 45

def shortestFrom (m : Nat) (q : Int) (n : Nat) : Nat → Nat × Int
  | 0 => (0, 0)
  | digits + 1 =>
    let power := magnitude m q - n
    match (grid m q power).point? with
    | some c => if c = pow10 n then (1, power + n) else (c, power)
    | none => shortestFrom m q (n + 1) digits

def shortest (m : Nat) (q : Int) : Nat × Int :=
  if m = 0 then (0, 0) else shortestFrom m q 1 9

def positional (c : Nat) (power : Int) : List Char :=
  let ds := Nat.toDigits 10 c
  if 0 ≤ power then ds ++ List.replicate power.toNat '0' ++ ['.', '0']
  else
    let k := (-power).toNat
    if k < ds.length then ds.take (ds.length - k) ++ '.' :: ds.drop (ds.length - k)
    else '0' :: '.' :: (List.replicate (k - ds.length) '0' ++ ds)

def minusIf (negative : Bool) (text : List Char) : List Char :=
  if negative then '-' :: text else text

/-- The text of a number: infinities and not-a-number have words, zero keeps its sign. -/
def text (x : Float32) : List Char :=
  match Binary.ofBits x.toBits with
  | .nan => ['N', 'a', 'N']
  | .infinite negative => minusIf negative ['i', 'n', 'f']
  | .finite negative m q =>
    let s := shortest m q
    minusIf negative (positional s.1 s.2)

end Sequencer.Decimal
