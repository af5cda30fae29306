import Sequencer.Decimal.Shortest

/-!
# Fixed places

A number rounded to so many places after the point, from its exact value, a half going to the
even neighbour.
-/

set_option autoImplicit false

namespace Sequencer.Decimal

def unitsAt (places : Nat) (m : Nat) (q : Int) : Nat :=
  roundHalfEven (m * pow2 q.toNat * pow10 places) (pow2 (-q).toNat)

def pointed (places units : Nat) : List Char :=
  let ds := Nat.toDigits 10 units
  let ds := List.replicate (places + 1 - ds.length) '0' ++ ds
  ds.take (ds.length - places) ++ '.' :: ds.drop (ds.length - places)

def withPlaces (places : Nat) (x : Float32) : String :=
  String.ofList <|
    match Binary.ofBits x.toBits with
    | .nan => ['N', 'a', 'N']
    | .infinite negative => minusIf negative ['i', 'n', 'f']
    | .finite negative m q => minusIf negative (pointed places (unitsAt places m q))

end Sequencer.Decimal
