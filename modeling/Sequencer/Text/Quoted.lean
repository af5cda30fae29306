import Sequencer.Text.Printable

/-!
# Quoted text

Text between double quotes. Writing escapes what would end the text or could not be read off the
page; the escapes name a character by a letter or by its code point.
-/

set_option autoImplicit false

namespace Sequencer.Text

def codePoint (c : Char) : List Char :=
  '\\' :: 'u' :: '\x7b' :: (Nat.toDigits 16 c.toNat ++ ['\x7d'])

/-- How a character stands between quotes. Where a single quote could end the text too, it is
escaped like the double one. -/
def escaped (singleToo : Bool) (c : Char) : List Char :=
  if c = '\x00' then ['\\', '0']
  else if c = '\t' then ['\\', 't']
  else if c = '\r' then ['\\', 'r']
  else if c = '\n' then ['\\', 'n']
  else if c = '\\' ∨ c = '"' ∨ (c = '\'' ∧ singleToo) then ['\\', c]
  else if isJoining c ∨ ¬ isPrintable c then codePoint c
  else [c]

def quoted (singleToo : Bool) (cs : List Char) : List Char :=
  '"' :: (cs.flatMap (escaped singleToo) ++ ['"'])

end Sequencer.Text
