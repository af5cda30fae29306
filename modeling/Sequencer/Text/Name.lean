import Sequencer.Text.Identifier
import Sequencer.Text.Reader

/-!
# Names

Field and type names and keywords. A raw name is written behind `r#` and may hold points and
signs; an ordinary name that runs on into those is refused.
-/

set_option autoImplicit false

namespace Sequencer.Text

def isRawNameChar (c : Char) : Bool := c = '.' || c = '+' || c = '-' || isNameContinue c

def nameGoesOn : List Char → Bool
  | [] => false
  | c :: _ => isNameContinue c

namespace Reader

def keyword (word : List Char) : Reader Bool := fun cs =>
  let rest := cs.drop word.length
  if word.isPrefixOf cs && !nameGoesOn rest then some (true, rest) else some (false, cs)

def byteOpenings : List (List Char) := [['b', '"'], ['b', '\''], ['b', 'r', '#'], ['b', 'r', '"']]

def rawOpenings : List (List Char) := [['r', '"'], ['r', '#', '"'], ['r', '#', '#']]

def opensAny (openings : List (List Char)) (cs : List Char) : Bool :=
  openings.any fun o => o.isPrefixOf cs

def name : Reader (List Char)
  | [] => none
  | c :: rest =>
    let cs := c :: rest
    if !isNameStart c || opensAny byteOpenings cs then none
    else if ['r', '#'].isPrefixOf cs then
      let body := cs.drop 2
      let raw := body.takeWhile isRawNameChar
      if raw.isEmpty then none else some (raw, body.dropWhile isRawNameChar)
    else
      let plain := cs.takeWhile isNameContinue
      if plain.length < (cs.takeWhile isRawNameChar).length then none
      else some (plain, cs.dropWhile isNameContinue)

def name? : Reader (Option (List Char))
  | [] => some (none, [])
  | c :: rest =>
    let cs := c :: rest
    if opensAny byteOpenings cs || opensAny rawOpenings cs then some (none, cs)
    else if ['r', '#'].isPrefixOf cs then
      let body := cs.drop 2
      let raw := body.takeWhile isRawNameChar
      if raw.isEmpty then some (none, cs) else some (some raw, body.dropWhile isRawNameChar)
    else if isNameStart c then
      some (some (c :: rest.takeWhile isNameContinue), rest.dropWhile isNameContinue)
    else some (none, cs)

end Reader

end Sequencer.Text
