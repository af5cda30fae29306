/-!
# Reading characters

A reader takes what it wants from the front of a text, or refuses it.
-/

set_option autoImplicit false

namespace Sequencer.Text

abbrev Reader := StateT (List Char) Option

namespace Reader

variable {α : Type}

def refuse : Reader α := fun _ => none

def next : Reader Char
  | [] => none
  | c :: rest => some (c, rest)

def peek : Reader (Option Char) := fun cs => some (cs.head?, cs)

def accept (text : List Char) : Reader Bool := fun cs =>
  if text.isPrefixOf cs then some (true, cs.drop text.length) else some (false, cs)

def require (text : List Char) : Reader Unit := do
  if ← accept text then pure () else refuse

def ahead (text : List Char) : Reader Bool := fun cs => some (text.isPrefixOf cs, cs)

def takeWhile (p : Char → Bool) : Reader (List Char) := fun cs =>
  some (cs.takeWhile p, cs.dropWhile p)

def left : Reader Nat := fun cs => some (cs.length, cs)

end Reader

end Sequencer.Text
