import Sequencer.Proofs.Text.Quoting

/-!
# Records that are read field by field

A record whose fields are all known, written without attributes and without a name.
-/

set_option autoImplicit false

namespace Sequencer.Text

open Reader

def isPlainName : List Char → Bool
  | [] => false
  | c :: word => isNameStart c && c ≠ 'b' && c ≠ 'r' && isSolid c && c ≠ ')' &&
      (c :: word).all isNameContinue

namespace Reader

variable {α : Type} {c d : Char} {word text rest : List Char}

/-- A plain name, up to a character that no name goes on with. -/
theorem name_append (h : isPlainName word = true) (hd : isRawNameChar d = false)
    (rest : List Char) : name (word ++ d :: rest) = some (word, d :: rest) := by
  cases word with
  | nil => cases h
  | cons c word =>
    simp only [isPlainName, Bool.and_eq_true, decide_eq_true_eq, List.all_eq_true] at h
    obtain ⟨⟨⟨⟨⟨hstart, hb⟩, hr⟩, -⟩, -⟩, hall⟩ := h
    have hopen : opensAny byteOpenings (c :: (word ++ d :: rest)) = false := by
      simp [opensAny, byteOpenings, List.isPrefixOf, Ne.symm hb]
    have hraw : ['r', '#'].isPrefixOf (c :: (word ++ d :: rest)) = false := by
      simp [List.isPrefixOf, Ne.symm hr]
    have hstop : isNameContinue d = false := by
      simp only [isRawNameChar, Bool.or_eq_false_iff] at hd
      exact hd.2
    have hplain := takeWhile_append hall hstop rest
    have hraws : ∀ e ∈ c :: word, isRawNameChar e = true := by
      intro e he
      simp [isRawNameChar, hall e he]
    have hlong := takeWhile_append hraws hd rest
    simp only [takeWhile, Option.some.injEq, Prod.mk.injEq] at hplain hlong
    rw [List.cons_append] at hplain hlong ⊢
    simp [name, hstart, hopen, hraw, hplain.1, hplain.2, hlong.1]

/-- A comma in front of the next field. -/
theorem comma_name (h : isPlainName word = true) (rest : List Char) :
    comma (',' :: (word ++ rest)) = some (true, word ++ rest) := by
  cases word with
  | nil => cases h
  | cons c word =>
    simp only [isPlainName, Bool.and_eq_true] at h
    exact comma_head h.1.1.2 (word ++ rest)

variable {e : Extensions} {budget n : Nat} {field : List Char → α → Option (Reader α)} {x y : α}

/-- A field that is known, with the comma behind its value if there is one. -/
theorem fields_cons (h : isPlainName word = true) {r : Reader α} {value more : List Char}
    {b : Bool} (hf : field word x = some r) (hd : isSolid d = true)
    (hv : r (d :: value) = some (y, more)) (hm : comma more = some (b, rest)) :
    fields e budget field (n + 1) true x (word ++ ':' :: d :: value) =
      fields e budget field n b y rest := by
  have hname := name_append h (d := ':') (by decide +kernel) (d :: value)
  cases word with
  | nil => cases h
  | cons c word =>
    simp only [isPlainName, Bool.and_eq_true, decide_eq_true_eq] at h
    obtain ⟨⟨⟨-, hsolid⟩, hclose⟩, -⟩ := h
    have hvalue : (do blanks; require [':']; blanks; r : Reader α) (':' :: d :: value) =
        some (y, more) := by
      rw [bind_some (blanks_solid (by decide) _), bind_some (require_head ':' _),
        bind_some (blanks_solid hd _), hv]
    rw [List.cons_append] at hname ⊢
    rw [fields, bind_some (blanks_solid hsolid _), bind_some (ahead_other (Ne.symm hclose))]
    simp only [Bool.false_eq_true, if_false, if_true]
    rw [bind_some hname, hf]
    exact (bind_some hvalue _).trans (bind_some hm _)

theorem fields_nil (x : α) (b : Bool) (rest : List Char) :
    fields e budget field (n + 1) b x (')' :: rest) = some (x, ')' :: rest) := by
  rw [fields, bind_some (blanks_solid (by decide) _), bind_some (ahead_head ')' rest)]
  rfl

end Reader

/-- A record without attributes and without a name, and nothing behind it. -/
theorem readRecord_fields {α : Type} {start a : α} {body : List Char}
    {field : Extensions → List Char → α → Option (Reader α)}
    (h : fields {} (nestingBudget - 2) (field {}) body.length true start body = some (a, [')']))
    (word : List Char) : readRecord word start field ('(' :: body) = some a := by
  have hattributes : attributes ('(' :: body).length {} ('(' :: body) = some ({}, '(' :: body) := by
    rw [List.length_cons, attributes, bind_some (ahead_other (by decide))]
    rfl
  have hgo : nameGoesOn ('(' :: body) = false := by
    show isNameContinue '(' = false
    decide +kernel
  have hname : recordName {} word ('(' :: body) = some ((), '(' :: body) := by
    simp [recordName, hgo]
  have hblanks := blanks_solid (c := '(') (by decide) body
  simp only [readRecord]
  rw [bind_some hblanks, bind_some (left_apply _), bind_some hattributes, bind_some hname,
    bind_some hblanks, bind_some (require_head '(' _), bind_some (left_apply _), bind_some h,
    bind_some (comma_other (by decide) (by decide) []), bind_some (require_head ')' []),
    bind_some blanks_nil]
  rfl

end Sequencer.Text
