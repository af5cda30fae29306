import Sequencer.Text.Reader

/-!
# Blanks between tokens

White space, comments to the end of a line, and block comments that nest.
-/

set_option autoImplicit false

namespace Sequencer.Text

def isBlank (c : Char) : Bool :=
  (9 ≤ c.toNat && c.toNat ≤ 13) || c.toNat = 0x20 || c.toNat = 0x85 || c.toNat = 0x200e ||
    c.toNat = 0x200f || c.toNat = 0x2028 || c.toNat = 0x2029

def afterBlock : Nat → List Char → Option (List Char)
  | _, [] => none
  | level, '/' :: '*' :: rest => afterBlock (level + 1) rest
  | level, '*' :: '/' :: rest => if level ≤ 1 then some rest else afterBlock (level - 1) rest
  | level, _ :: rest => afterBlock level rest

def afterBlanks : Nat → List Char → Option (List Char)
  | 0, cs => some cs
  | n + 1, cs =>
    match cs.dropWhile isBlank with
    | '/' :: '/' :: rest => afterBlanks n (rest.dropWhile (· ≠ '\n'))
    | '/' :: '*' :: rest => (afterBlock 1 rest).bind (afterBlanks n)
    | '/' :: _ => none
    | rest => some rest

def Reader.blanks : Reader Unit := fun cs =>
  (afterBlanks (cs.length + 1) cs).map fun rest => ((), rest)

def Reader.comma : Reader Bool := do
  blanks
  if ← accept [','] then
    blanks
    return true
  else return false

end Sequencer.Text
