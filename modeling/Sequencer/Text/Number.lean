import Sequencer.Decimal.Binary
import Sequencer.Text.Escape
import Sequencer.Text.Name

/-!
# Reading numbers

Whole numbers in four bases and decimals with a point and an exponent. Underscores may part the
digits, and a suffix may name a type.
-/

set_option autoImplicit false

namespace Sequencer.Text

def isIntChar (c : Char) : Bool := (hexDigit? c).isSome || c = '_'

def isFloatChar (c : Char) : Bool :=
  c.isDigit || c = 'e' || c = 'E' || c = '.' || c = '+' || c = '-' || c = '_'

def ofDigits (base : Nat) : List Char → Nat → Option Nat
  | [], n => some n
  | c :: rest, n =>
    match hexDigit? c with
    | some d => if d < base then ofDigits base rest (n * base + d) else none
    | none => none

namespace Reader

def base : Reader Nat := do
  if ← accept ['0', 'b'] then pure 2
  else if ← accept ['0', 'o'] then pure 8
  else if ← accept ['0', 'x'] then pure 16
  else pure 10

def natural : Reader Nat := do
  let b ← base
  if ← ahead ['_'] then refuse
  else do
    let run ← takeWhile isIntChar
    if run.isEmpty then refuse
    else
      match ofDigits b (run.filter (· ≠ '_')) 0 with
      | some n => pure n
      | none => refuse

def minus : Reader Bool := do
  if ← accept ['-'] then pure true
  else do
    let _ ← accept ['+']
    pure false

def integerTypes : List (List Char × Nat × Nat) :=
  [8, 16, 32, 64, 128].flatMap fun bits =>
    [('u' :: Nat.toDigits 10 bits, 0, Decimal.pow2 bits - 1),
      ('i' :: Nat.toDigits 10 bits, Decimal.pow2 (bits - 1), Decimal.pow2 (bits - 1) - 1)]

def firstKeyword : List (List Char × Nat × Nat) → Reader (Option (List Char × Nat × Nat))
  | [] => pure none
  | t :: rest => do if ← keyword t.1 then pure (some t) else firstKeyword rest

/-- A whole number whose size is `negative` or not. A suffix must be one of `types`, and the
number must fit the suffix or else lie within the default bounds. -/
def integer (types : List (List Char × Nat × Nat)) (down up : Nat) : Reader Int := do
  let negative ← minus
  let n ← natural
  let bounds : Nat × Nat ← (do
    match ← firstKeyword types with
    | some t => pure t.2
    | none => pure (down, up))
  if negative then
    if n ≤ bounds.1 then pure (-(n : Int)) else refuse
  else if n ≤ bounds.2 then pure (n : Int) else refuse

def unsigned64 : Reader Nat := do
  let n ← integer (integerTypes.filter (·.1 = ['u', '6', '4'])) 0 (Decimal.pow2 64 - 1)
  return n.toNat

def underscoresOk : Bool → List Char → Bool
  | _, [] => true
  | ok, c :: rest =>
    if c = '_' then ok && underscoresOk ok rest
    else if c = '.' then underscoresOk false rest
    else if c = '+' ∨ c = '-' then underscoresOk ok rest
    else underscoresOk true rest

end Reader

/-- A decimal: plus or minus `coefficient * 10 ^ power`. -/
structure Scientific where
  negative : Bool
  coefficient : Nat
  power : Int
  deriving DecidableEq

def decimalDigits (ds : List Char) : Nat := ds.foldl (fun n c => n * 10 + (c.toNat - 48)) 0

def exponent? (cs : List Char) : Option Int :=
  let negative := cs.head? = some '-'
  let ds := if cs.head? = some '-' ∨ cs.head? = some '+' then cs.tail else cs
  if ds.isEmpty ∨ ¬ ds.all Char.isDigit then none
  else some (if negative then -(decimalDigits ds : Int) else decimalDigits ds)

def Scientific.ofChars? (cs : List Char) : Option Scientific :=
  let negative : Bool := cs.head? = some '-'
  let cs := if cs.head? = some '-' ∨ cs.head? = some '+' then cs.tail else cs
  let whole := cs.takeWhile Char.isDigit
  let rest := cs.dropWhile Char.isDigit
  let fraction := if rest.head? = some '.' then rest.tail.takeWhile Char.isDigit else []
  let rest := if rest.head? = some '.' then rest.tail.dropWhile Char.isDigit else rest
  if whole.isEmpty ∧ fraction.isEmpty then none
  else
    let e? := match rest with
      | [] => some 0
      | c :: tail => if c = 'e' ∨ c = 'E' then exponent? tail else none
    e?.map fun e => ⟨negative, decimalDigits (whole ++ fraction), e - fraction.length⟩

/-- The single-precision number nearest to a decimal. Far outside the range the answer is known
without computing the power of ten. -/
def Scientific.toFloat32 (d : Scientific) : Float32 :=
  let size : Int := (Nat.toDigits 10 d.coefficient).length + d.power
  Decimal.signed d.negative <|
    if d.coefficient = 0 ∨ size < -50 then 0
    else if 50 < size then Decimal.infinityBits
    else
      Decimal.nearestBits (d.coefficient * Decimal.pow10 d.power.toNat)
        (Decimal.pow10 (-d.power).toNat)

namespace Reader

def floatWords : List (List Char × UInt32) :=
  [(['i', 'n', 'f'], 0x7f800000), (['+', 'i', 'n', 'f'], 0x7f800000),
    (['-', 'i', 'n', 'f'], 0xff800000), (['N', 'a', 'N'], 0x7fc00000),
    (['+', 'N', 'a', 'N'], 0x7fc00000), (['-', 'N', 'a', 'N'], 0xffc00000)]

def floatSuffixes (wide : Bool) : List (List Char) :=
  if wide then [['f', '3', '2'], ['f', '6', '4']] else [['f', '3', '2']]

def floatWord (wide : Bool) : List (List Char × UInt32) → Reader (Option Float32)
  | [] => pure none
  | (word, bits) :: rest => do
    if ← keyword word then pure (some (.ofBits bits))
    else if ← acceptSuffixed word (floatSuffixes wide) then pure (some (.ofBits bits))
    else floatWord wide rest
where
  acceptSuffixed (word : List Char) : List (List Char) → Reader Bool
    | [] => pure false
    | s :: rest => do if ← keyword (word ++ s) then pure true else acceptSuffixed word rest

def floatSuffix : List (List Char) → Reader Unit
  | [] => pure ()
  | s :: rest => do if ← keyword s then pure () else floatSuffix rest

def float (wide : Bool) : Reader Float32 := do
  match ← floatWord wide floatWords with
  | some x => pure x
  | none => do
    let run ← takeWhile isFloatChar
    if run.head? = some '_' ∨ ¬ underscoresOk false run then refuse
    else
      match Scientific.ofChars? (run.filter (· ≠ '_')) with
      | some d => do
        floatSuffix (floatSuffixes wide)
        pure d.toFloat32
      | none => refuse

def anyNumber : Reader Unit := fun cs =>
  let body := if cs.head? = some '+' ∨ cs.head? = some '-' then cs.tail else cs
  let asFloat := (float true cs).map fun r => ((), r.2)
  if (body.takeWhile isIntChar).length < (body.takeWhile isFloatChar).length then asFloat
  else
    match integer integerTypes (Decimal.pow2 127) (Decimal.pow2 128 - 1) cs with
    | some r => some ((), r.2)
    | none =>
      match base body with
      | some (10, _) => asFloat
      | _ => none

end Reader

end Sequencer.Text
