import Sequencer.Text.Notation

/-!
# Bookmarks

Where a sequence stood: its name and the index of the step it was to take. Timers and progress
inside that step are not part of it.
-/

set_option autoImplicit false

namespace Sequencer

structure Bookmark where
  sequence : String
  index : Nat
  deriving DecidableEq

namespace Bookmark

def typeName : List Char := "Snapshot".toList

def sequenceName : List Char := "sequence".toList

def indexName : List Char := "step_index".toList

def renderChars (b : Bookmark) : List Char :=
  '(' :: (sequenceName ++ ':' :: Text.quoted true b.sequence.toList ++
    ',' :: indexName ++ ':' :: Nat.toDigits 10 b.index ++ [')'])

def render (b : Bookmark) : String := String.ofList b.renderChars

structure Draft where
  sequence : Option (List Char) := none
  index : Option Nat := none

open Text in
def field (_ : Extensions) (key : List Char) (p : Draft) : Option (Reader Draft) :=
  if key = sequenceName then
    some (if p.sequence.isSome then Reader.refuse
      else do return { p with sequence := some (← Reader.string) })
  else if key = indexName then
    some (if p.index.isSome then Reader.refuse
      else do return { p with index := some (← Reader.unsigned64) })
  else none

def Draft.complete? (p : Draft) : Option Bookmark := do
  return { sequence := String.ofList (← p.sequence), index := ← p.index }

def ofChars? (text : List Char) : Option Bookmark :=
  (Text.readRecord typeName {} field text).bind Draft.complete?

def parse? (text : String) : Option Bookmark := ofChars? text.toList

end Bookmark

end Sequencer
