import Sequencer.Text.Number

/-!
# Object notation

Records of named fields in parentheses, with lists, maps, options, tuples and scalars as values.
A text opens with optional attributes that switch extensions on, holds one value, and ends. Names
may come before the parentheses. A reader asks for the fields it knows and skips the rest, so
any well-formed value may stand in a field that nobody asks for.

Values nest no deeper than a budget allows: every bracket, and every element inside one, takes
one unit for as long as it is open.
-/

set_option autoImplicit false

namespace Sequencer.Text

structure Extensions where
  implicitSome : Bool := false
  explicitNames : Bool := false

namespace Reader

variable {α : Type}

def tokens : List (List Char) → Reader Unit
  | [] => pure ()
  | w :: rest => do
    require w
    blanks
    tokens rest

def extension (e : Extensions) (word : List Char) : Option Extensions :=
  if word = "implicit_some".toList then some { e with implicitSome := true }
  else if word = "explicit_struct_names".toList then some { e with explicitNames := true }
  else if word = "unwrap_newtypes".toList ∨ word = "unwrap_variant_newtypes".toList then some e
  else none

def extensionNames : Nat → Extensions → Reader Extensions
  | 0, _ => refuse
  | n + 1, e => do
    match extension e (← name) with
    | none => refuse
    | some e =>
      let more ← comma
      let goesOn := nameGoesOn (← get)
      if goesOn then
        if more then extensionNames n e else refuse
      else pure e

def attributes : Nat → Extensions → Reader Extensions
  | 0, e => pure e
  | n + 1, e => do
    if ← ahead ['#'] then
      tokens [['#'], ['!'], ['['], "enable".toList, ['(']]
      let e ← extensionNames (← left) e
      tokens [[')'], [']']]
      attributes n e
    else pure e

def elements (close : Char) (element : Reader Unit) : Nat → Bool → Reader Unit
  | 0, _ => refuse
  | n + 1, hadComma => do
    blanks
    if ← ahead [close] then pure ()
    else if hadComma then
      element
      elements close element n (← comma)
    else refuse

def keyed (key value : Reader Unit) : Reader Unit := do
  key
  blanks
  require [':']
  blanks
  value

def namesField : Reader Bool := fun cs =>
  let look : Reader Bool := do
    blanks
    match ← name? with
    | none => pure false
    | some _ => do
      blanks
      ahead [':']
  match look cs with
  | some (b, _) => some (b, cs)
  | none => some (false, cs)

/-- How to go on inside a value: the value in an option, an element of a list, and the name of a
field. -/
structure Inner where
  optional : Reader Unit
  element : Reader Unit
  fieldName : Reader Unit

def parenthesised (inner : Inner) : Reader Unit := do
  require ['(']
  let element := if ← namesField then keyed inner.fieldName inner.element else inner.element
  elements ')' element (← left) true
  let _ ← comma
  require [')']

def option (e : Extensions) (inner : Reader α) : Reader (Option α) := do
  if ← keyword "None".toList then pure none
  else
    let wrapped ← (do
      if ← keyword "Some".toList then
        blanks
        accept ['(']
      else pure false)
    if wrapped then
      blanks
      let v ← inner
      let _ ← comma
      require [')']
      return some v
    else if e.implicitSome then some <$> inner
    else refuse

def firstWord : List (List Char) → Reader Bool
  | [] => pure false
  | w :: rest => do if ← keyword w then pure true else firstWord rest

def valueWords : List (List Char) :=
  ["true".toList, "false".toList, "None".toList, "inf".toList, "inff32".toList, "inff64".toList,
    "NaN".toList, "NaNf32".toList, "NaNf64".toList]

/-- Skips one value; `bracket` says whether the budget lets a bracket open. -/
def skipOne (e : Extensions) (bracket : Bool) (inner : Inner) : Reader Unit := fun cs =>
  let opened (r : Reader Unit) : Reader Unit := if bracket then r else refuse
  let skip : Reader Unit := do
    if opensAny ["Some".toList] cs && !nameGoesOn (cs.drop 4) then
      let _ ← option e inner.optional
    else if ← firstWord valueWords then pure ()
    else if ← accept ['(', ')'] then pure ()
    else
      match ← name? with
      | some _ => do
        blanks
        if ← ahead ['('] then opened (parenthesised inner) else pure ()
      | none =>
        match ← peek with
        | some '(' => opened (parenthesised inner)
        | some '[' => opened do
          require ['[']
          elements ']' inner.element (← left) true
          blanks
          require [']']
        | some '\x7b' => opened do
          require ['\x7b']
          elements '\x7d' (keyed inner.element inner.element) (← left) true
          blanks
          require ['\x7d']
        | some '"' => do let _ ← string
        | some 'r' => do let _ ← string
        | some 'b' => do
          if ← ahead ['b', '\''] then do let _ ← byteChar
          else do let _ ← byteString
        | some '\'' => do let _ ← quotedChar
        | some c =>
          if c.isDigit || c = '+' || c = '-' || c = '.' then anyNumber else refuse
        | none => refuse
  skip cs

def skipValue (e : Extensions) : Nat → Reader Unit
  | 0 => skipOne e false ⟨refuse, refuse, refuse⟩
  | 1 => skipOne e true ⟨skipValue e 0, refuse, refuse⟩
  | n + 2 => skipOne e true ⟨skipValue e (n + 1), skipValue e n, do let _ ← name⟩

def bool : Reader Bool := do
  if ← keyword "true".toList then pure true
  else if ← keyword "false".toList then pure false
  else refuse

/-- The fields of a record. `field` reads the value of a field it knows into what was read so
far, refuses a field it has already read, and answers `none` for one it does not know. -/
def fields (e : Extensions) (budget : Nat) (field : List Char → α → Option (Reader α)) :
    Nat → Bool → α → Reader α
  | 0, _, _ => refuse
  | n + 1, hadComma, a => do
    blanks
    if ← ahead [')'] then pure a
    else if hadComma then
      let key ← name
      let read := field key a
      let value : Reader α := do
        blanks
        require [':']
        blanks
        match read with
        | some r => r
        | none => do
          skipValue e budget
          pure a
      let a ← value
      fields e budget field n (← comma) a
    else refuse

def recordName (e : Extensions) (word : List Char) : Reader Unit := fun cs =>
  if nameGoesOn cs then
    match name cs with
    | some (w, rest) => if w = word then some ((), rest) else none
    | none => none
  else if e.explicitNames then none
  else some ((), cs)

end Reader

def nestingBudget : Nat := 128

/-- Reads a text that holds one record of the given name. The record, its fields and their values
take two units of the budget. -/
def readRecord {α : Type} (word : List Char) (start : α)
    (field : Extensions → List Char → α → Option (Reader α)) (text : List Char) : Option α :=
  let reader : Reader α := do
    Reader.blanks
    let e ← Reader.attributes (← Reader.left) {}
    Reader.recordName e word
    Reader.blanks
    Reader.require ['(']
    let a ← Reader.fields e (nestingBudget - 2) (field e) (← Reader.left) true start
    let _ ← Reader.comma
    Reader.require [')']
    Reader.blanks
    if (← get).isEmpty then pure a else Reader.refuse
  (reader text).map (·.1)

end Sequencer.Text
