import Sequencer.Text.Blank
import Sequencer.Text.Quoted

/-!
# Reading quoted text

Strings with escapes, raw strings, characters, and strings of bytes. A code point may be given
by number or by the bytes of its encoding.
-/

set_option autoImplicit false

namespace Sequencer.Text

def hexDigit? (c : Char) : Option Nat :=
  if '0' ≤ c ∧ c ≤ '9' then some (c.toNat - 48)
  else if 'a' ≤ c ∧ c ≤ 'f' then some (c.toNat - 87)
  else if 'A' ≤ c ∧ c ≤ 'F' then some (c.toNat - 55)
  else none

def ofCodePoint? (n : Nat) : Option Char := if n.isValidChar then some (Char.ofNat n) else none

def isTail (b : Nat) : Bool := b / 64 = 2

def ofBytes? : List Nat → Option Char
  | [a] => if a < 0x80 then ofCodePoint? a else none
  | [a, b] =>
    if a / 32 = 6 ∧ 0xc2 ≤ a ∧ isTail b then ofCodePoint? (a % 32 * 64 + b % 64) else none
  | [a, b, c] =>
    let n := (a % 16 * 64 + b % 64) * 64 + c % 64
    if a / 16 = 14 ∧ isTail b ∧ isTail c ∧ 0x800 ≤ n then ofCodePoint? n else none
  | [a, b, c, d] =>
    let n := ((a % 8 * 64 + b % 64) * 64 + c % 64) * 64 + d % 64
    if a / 8 = 30 ∧ isTail b ∧ isTail c ∧ isTail d ∧ 0x10000 ≤ n then ofCodePoint? n else none
  | _ => none

namespace Reader

def hexDigit : Reader Nat := do
  match hexDigit? (← next) with
  | some d => pure d
  | none => refuse

def hexByte : Reader Nat := do
  let high ← hexDigit
  return high * 16 + (← hexDigit)

def encoded : Nat → List Nat → Reader Char
  | 0, _ => refuse
  | more + 1, bytes =>
    match ofBytes? bytes with
    | some c => pure c
    | none => do
      require ['\\', 'x']
      encoded more (bytes ++ [← hexByte])

def braced : Nat → Nat → Nat → Reader Nat
  | 0, _, n => do require ['\x7d']; pure n
  | more + 1, count, n => do
    match ← peek with
    | some '\x7d' => if count = 0 then refuse else do require ['\x7d']; pure n
    | _ => braced more (count + 1) (n * 16 + (← hexDigit))

/-- What follows a backslash. `bytesOnly` takes an escaped byte as it is, and `bytes` bounds the
count of escaped bytes that make up one character. -/
def afterBackslash (bytesOnly : Bool) (bytes : Nat) : Reader Char := do
  match ← next with
  | '\'' => pure '\''
  | '"' => pure '"'
  | '\\' => pure '\\'
  | 'n' => pure '\n'
  | 'r' => pure '\r'
  | 't' => pure '\t'
  | '0' => pure '\x00'
  | 'x' => do
    let b ← hexByte
    if bytesOnly then pure (Char.ofNat b) else encoded bytes [b]
  | 'u' => do
    require ['\x7b']
    match ofCodePoint? (← braced 6 0 0) with
    | some c => pure c
    | none => refuse
  | _ => refuse

def stringBody (bytesOnly : Bool) : Nat → Reader (List Char)
  | 0 => refuse
  | n + 1 => do
    match ← next with
    | '"' => pure []
    | '\\' => do
      let c ← afterBackslash bytesOnly 4
      return c :: (← stringBody bytesOnly n)
    | c => return c :: (← stringBody bytesOnly n)

def upTo (ending : List Char) : List Char → Option (List Char × List Char)
  | [] => if ending.isEmpty then some ([], []) else none
  | c :: rest =>
    if ending.isPrefixOf (c :: rest) then some ([], (c :: rest).drop ending.length)
    else (upTo ending rest).map fun r => (c :: r.1, r.2)

def rawBody : Reader (List Char) := do
  let hashes ← takeWhile (· = '#')
  require ['"']
  upTo ('"' :: hashes)

def string : Reader (List Char) := do
  if ← accept ['"'] then stringBody false (← left)
  else do
    require ['r']
    rawBody

def byteString : Reader (List Char) := do
  if ← accept ['b', '"'] then stringBody true (← left)
  else do
    require ['b', 'r']
    rawBody

def quotedChar : Reader Char := do
  require ['\'']
  let c ← next
  let c ← if c = '\\' then afterBackslash false 1 else pure c
  require ['\'']
  return c

def byteChar : Reader Char := do
  require ['b', '\'']
  let c ← next
  let c ← if c = '\\' then
      (do if ← ahead ['u'] then refuse else afterBackslash true 1)
    else if c.toNat < 0x80 then pure c else refuse
  require ['\'']
  return c

end Reader

end Sequencer.Text
