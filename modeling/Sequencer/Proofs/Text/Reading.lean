import Sequencer.Text.Notation

/-!
# What readers take

Each reader is described by the texts it takes: what it makes of the text and what it leaves of
the characters behind it. A reader that looks ahead is described together with the character that
stops it.
-/

set_option autoImplicit false

namespace Sequencer.Text

namespace Reader

variable {α β : Type} {c : Char} {text cs rest : List Char}

theorem bind_apply (x : Reader α) (f : α → Reader β) (cs : List Char) :
    (x >>= f) cs = (x cs).bind fun r => f r.1 r.2 := rfl

@[simp] theorem pure_apply (a : α) (cs : List Char) : (pure a : Reader α) cs = some (a, cs) := rfl

/-- A reader goes on with what the one before it has left. -/
theorem bind_some {x : Reader α} {a : α} (h : x cs = some (a, rest)) (f : α → Reader β) :
    (x >>= f) cs = f a rest := by
  rw [bind_apply, h]
  rfl

@[simp] theorem next_cons (c : Char) (rest : List Char) : next (c :: rest) = some (c, rest) := rfl

@[simp] theorem peek_cons (c : Char) (rest : List Char) :
    peek (c :: rest) = some (some c, c :: rest) := rfl

@[simp] theorem left_apply (cs : List Char) : left cs = some (cs.length, cs) := rfl

@[simp] theorem accept_append (text rest : List Char) :
    accept text (text ++ rest) = some (true, rest) := by
  simp [accept]

theorem accept_head (c : Char) (rest : List Char) : accept [c] (c :: rest) = some (true, rest) :=
  accept_append [c] rest

theorem accept_other (h : text.isPrefixOf cs = false) : accept text cs = some (false, cs) := by
  simp [accept, h]

@[simp] theorem require_append (text rest : List Char) :
    require text (text ++ rest) = some ((), rest) := by
  rw [require, bind_some (accept_append text rest)]
  rfl

theorem require_head (c : Char) (rest : List Char) : require [c] (c :: rest) = some ((), rest) :=
  require_append [c] rest

theorem accept_pair (c d : Char) (rest : List Char) :
    accept [c, d] (c :: d :: rest) = some (true, rest) :=
  accept_append [c, d] rest

theorem require_pair (c d : Char) (rest : List Char) :
    require [c, d] (c :: d :: rest) = some ((), rest) :=
  require_append [c, d] rest

theorem ahead_head (c : Char) (rest : List Char) :
    ahead [c] (c :: rest) = some (true, c :: rest) := by
  simp [ahead, List.isPrefixOf]

theorem ahead_other {d : Char} (h : d ≠ c) : ahead [d] (c :: rest) = some (false, c :: rest) := by
  simp [ahead, List.isPrefixOf, h]

/-- A run ends before the first character that does not belong to it. -/
theorem takeWhile_append {p : Char → Bool} (hp : ∀ d ∈ text, p d = true) (hc : p c = false)
    (rest : List Char) : takeWhile p (text ++ c :: rest) = some (text, c :: rest) := by
  simp [takeWhile, List.takeWhile_append_of_pos hp, List.dropWhile_append_of_pos hp, hc]

/-! Blanks -/

def isSolid (c : Char) : Bool := !isBlank c && c ≠ '/'

theorem blanks_solid (h : isSolid c = true) (rest : List Char) :
    blanks (c :: rest) = some ((), c :: rest) := by
  obtain ⟨hb, hc⟩ : isBlank c = false ∧ c ≠ '/' := by simpa [isSolid] using h
  simp [blanks, afterBlanks, hb, hc]

theorem blanks_nil : blanks [] = some ((), []) := rfl

/-- A comma, and what comes after it. -/
theorem comma_head (h : isSolid c = true) (rest : List Char) :
    comma (',' :: c :: rest) = some (true, c :: rest) := by
  rw [comma, bind_some (blanks_solid (by decide) _), bind_some (accept_head ',' _), if_pos rfl,
    bind_some (blanks_solid h rest)]
  rfl

theorem comma_other (h : isSolid c = true) (hc : c ≠ ',') (rest : List Char) :
    comma (c :: rest) = some (false, c :: rest) := by
  have hno : ([','] : List Char).isPrefixOf (c :: rest) = false := by
    simp [List.isPrefixOf, Ne.symm hc]
  rw [comma, bind_some (blanks_solid h rest), bind_some (accept_other hno)]
  rfl

end Reader

end Sequencer.Text
