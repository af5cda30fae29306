import Sequencer.Proofs.Text.Values

/-!
# Values are skipped

A reader that has no use for a value skips it whole if it nests within the budget, and leaves what
stands behind it in place.
-/

set_option autoImplicit false

namespace Sequencer.Text

open Reader

variable {e : Extensions} {n : Nat} {c : Char} {b text word value rest : List Char}

namespace Reader

/-- Where no name begins, none is found. -/
theorem name?_other (hc : isNameStart c = false) (rest : List Char) :
    name? (c :: rest) = some (none, c :: rest) := by
  have hr : c ≠ 'r' := by
    rintro rfl
    exact absurd hc (by decide)
  have hraw : ['r', '#'].isPrefixOf (c :: rest) = false := by
    simp [List.isPrefixOf, Ne.symm hr]
  simp [name?, hraw, hc]

theorem name?_literal {cs : List Char}
    (h : (opensAny byteOpenings cs || opensAny rawOpenings cs) = true) :
    name? cs = some (none, cs) := by
  cases cs with
  | nil => rfl
  | cons c rest => simp only [name?, h, if_true]

/-- A raw string is told from a raw name by its first characters. -/
theorem name?_raw (h : Raw text) (rest : List Char) :
    name? ('r' :: (text ++ rest)) = some (none, 'r' :: (text ++ rest)) ∧
      name? ('b' :: 'r' :: (text ++ rest)) = some (none, 'b' :: 'r' :: (text ++ rest)) := by
  cases h with
  | @mk n text _ =>
    constructor <;> apply name?_literal
    · rcases n with _ | _ | n
      · simp [opensAny, rawOpenings, List.isPrefixOf]
      · simp [opensAny, rawOpenings, List.isPrefixOf]
      · simp [opensAny, rawOpenings, List.isPrefixOf, List.replicate_succ]
    · cases n with
      | zero => simp [opensAny, byteOpenings, List.isPrefixOf]
      | succ n => simp [opensAny, byteOpenings, List.isPrefixOf, List.replicate_succ]

theorem name?_quoted (h : Quoted text) (rest : List Char) :
    name? (text ++ rest) = some (none, text ++ rest) := by
  cases h with
  | string _ => exact name?_other (isNameStart_sign (by decide)) _
  | byteString _ => exact name?_literal (by simp [opensAny, byteOpenings, List.isPrefixOf])
  | rawString h => exact (name?_raw h rest).1
  | rawByteString h => exact (name?_raw h rest).2
  | char _ => exact name?_other (isNameStart_sign (by decide)) _
  | byteChar _ => exact name?_literal (by simp [opensAny, byteOpenings, List.isPrefixOf])

/-! What a name is told by -/

/-- What a text is not the key of. -/
theorem namesField_unnamed {cs more : List Char} (hb : blanks cs = some ((), more))
    (hn : name? more = some (none, more)) : namesField cs = some (false, cs) := by
  simp [namesField, bind_apply, hb, hn]

theorem namesField_name (hb : Blank b) (hn : Name word text) {b' : List Char} (hb' : Blank b')
    (hc : isDelimiter c = true) (hs : isSolid c = true) (rest : List Char) :
    namesField (b ++ (text ++ (b' ++ c :: rest))) =
      some (decide (c = ':'), b ++ (text ++ (b' ++ c :: rest))) := by
  have hname := delimited_name?.before (name?_whole hn) hb' hc rest
  have hopens : Opens text := by simpa using hn.opens []
  have hcolon : ahead [':'] (c :: rest) = some (decide (c = ':'), c :: rest) := by
    by_cases h : c = ':'
    · subst h
      exact ahead_head ':' rest
    · rw [ahead_other (Ne.symm h)]
      simp [h]
  simp only [namesField, bind_some (blanks_opens hb hopens _), bind_some hname,
    bind_some (blanks_append hb' hs rest), hcolon]

/-- A value is no key, unless a colon comes behind it. -/
theorem namesField_value (h : Value n value) (hb : Blank b) {b' : List Char} (hb' : Blank b')
    (hc : closes c = true) (hne : c ≠ ':') (rest : List Char) :
    namesField (b ++ (value ++ (b' ++ c :: rest))) =
      some (false, b ++ (value ++ (b' ++ c :: rest))) := by
  have hdel := isDelimiter_of_closes hc
  have hsolid := isSolid_of_closes hc
  have hblanks := blanks_opens hb h.opens (b' ++ c :: rest)
  have hname {word text} (hn : Name word text) :
      namesField (b ++ (text ++ (b' ++ c :: rest))) =
        some (false, b ++ (text ++ (b' ++ c :: rest))) := by
    rw [namesField_name hb hn hb' hdel hsolid]
    simp [hne]
  have hother {d more} (hd : isNameStart d = false) (hv : value = d :: more) :
      namesField (b ++ (value ++ (b' ++ c :: rest))) =
        some (false, b ++ (value ++ (b' ++ c :: rest))) := by
    subst hv
    exact namesField_unnamed hblanks (name?_other hd _)
  have htitle {title more} (ht : Title title) (hv : value = title ++ '(' :: more) :
      namesField (b ++ (value ++ (b' ++ c :: rest))) =
        some (false, b ++ (value ++ (b' ++ c :: rest))) := by
    cases ht with
    | none => exact hother (isNameStart_sign (by decide)) hv
    | name hn _ hb'' =>
      subst hv
      have := namesField_name hb hn hb'' (c := '(') (by decide) (by decide)
        (more ++ (b' ++ c :: rest))
      simpa using this
  cases h with
  | word hw => exact hname (name_of_mem_valueWords hw)
  | name hn _ => exact hname hn
  | number hn =>
    obtain ⟨d, more, rfl, hd⟩ := hn.head
    exact hother (opensNumber_isNameStart hd) rfl
  | quoted hq => exact namesField_unnamed hblanks (name?_quoted hq _)
  | unit => exact hother (isNameStart_sign (by decide)) rfl
  | @some n comma b₁ b₂ b₃ value hb₁ hb₂ hv hb₃ =>
    have := namesField_name hb name_some hb₁ (c := '(') (by decide) (by decide)
      (b₂ ++ (value ++ (b₃ ++ ')' :: (b' ++ c :: rest))))
    simpa using this
  | list _ _ _ => exact hother (isNameStart_sign (by decide)) rfl
  | map _ _ _ _ _ => exact hother (isNameStart_sign (by decide)) rfl
  | tuple ht _ _ _ => exact htitle ht rfl
  | record ht _ _ _ _ _ => exact htitle ht rfl

/-! Brackets -/

/-- Whether what comes next in parentheses is a key is seen from its first item. -/
theorem namesField_items {items : List (List Char)} (h : Items items text)
    (hi : ∀ i ∈ items, Value n i) (rest : List Char) :
    namesField (text ++ ')' :: rest) = some (false, text ++ ')' :: rest) := by
  cases h with
  | nil hb =>
    exact namesField_unnamed (blanks_append hb (by decide) _)
      (name?_other (isNameStart_sign (by decide)) _)
  | last hb hb' =>
    rw [List.append_assoc, List.append_assoc]
    exact namesField_value (hi _ (by simp)) hb hb' (by decide) (by decide) rest
  | cons hb hb' _ =>
    rw [List.append_assoc, List.append_assoc, List.append_assoc, List.cons_append]
    exact namesField_value (hi _ (by simp)) hb hb' (by decide) (by decide) _

theorem namesField_entries {entries : List Entry} (h : Items (entries.map Entry.text) text)
    (hk : ∀ e ∈ entries, ∃ word, Name word e.key) (hs : ∀ e ∈ entries, e.Spaced)
    (rest : List Char) :
    namesField (text ++ ')' :: rest) = some (decide (entries ≠ []), text ++ ')' :: rest) := by
  cases entries with
  | nil =>
    cases h with
    | nil hb =>
      exact namesField_unnamed (blanks_append hb (by decide) _)
        (name?_other (isNameStart_sign (by decide)) _)
  | cons e entries =>
    obtain ⟨word, hn⟩ := hk e (by simp)
    have hb' := (hs e (by simp)).before
    generalize hmap : (e :: entries).map Entry.text = items at h
    have hfirst : ∀ b more, Blank b → namesField (b ++ (e.text ++ more)) =
        some (true, b ++ (e.text ++ more)) := by
      intro b more hb
      have := namesField_name hb hn hb' (c := ':') (by decide) (by decide)
        (e.after ++ (e.value ++ more))
      simpa [Entry.text] using this
    cases h with
    | nil _ => cases hmap
    | last hb _ =>
      obtain ⟨rfl, -⟩ := List.cons.inj hmap
      simpa using hfirst _ _ hb
    | cons hb _ _ =>
      obtain ⟨rfl, -⟩ := List.cons.inj hmap
      simpa using hfirst _ _ hb

theorem parenthesised_items {inner : Inner} {items : List (List Char)} (h : Items items text)
    {element : Reader Unit} {named : Bool}
    (hnamed : namesField (text ++ ')' :: rest) = some (named, text ++ ')' :: rest))
    (helement : (if named = true then keyed inner.fieldName inner.element else inner.element) =
      element) (ho : ∀ i ∈ items, Opens i) (hi : ∀ i ∈ items, Takes element () i) :
    parenthesised inner ('(' :: (text ++ ')' :: rest)) = some ((), rest) := by
  have hlen := h.length_le ho
  have helements := elements_items h (show closes ')' = true by decide) (by decide) ho hi
    (show items.length < (text ++ ')' :: rest).length by simp; omega) (fun _ => rfl) rest
  have hcomma : comma (')' :: rest) = some (false, ')' :: rest) :=
    comma_other (by decide) (by decide) rest
  rw [parenthesised, bind_some (require_head '(' _), bind_some hnamed, helement,
    bind_some (left_apply _), bind_some helements, bind_some hcomma]
  exact require_head ')' rest

/-! Skipping one value -/

def innerAt (e : Extensions) (n : Nat) : Inner where
  optional := if 0 < n then skipValue e (n - 1) else refuse
  element := if 1 < n then skipValue e (n - 2) else refuse
  fieldName := if 1 < n then (do let _ ← name) else refuse

theorem skipValue_eq (e : Extensions) :
    ∀ n, skipValue e n = skipOne e (decide (0 < n)) (innerAt e n)
  | 0 => rfl
  | 1 => rfl
  | _ + 2 => rfl

theorem keyword_head {key : List Char} {c d : Char} (hne : d ≠ c) (rest : List Char) :
    keyword (d :: key) (c :: rest) = some (false, c :: rest) := by
  simp [keyword, List.isPrefixOf, hne]

/-- Whether a value is an option is decided like whether a keyword comes next. -/
theorem opensSome_eq {cs left : List Char} {found : Bool}
    (h : keyword "Some".toList cs = some (found, left)) :
    (opensAny ["Some".toList] cs && !nameGoesOn (cs.drop 4)) = found := by
  have hlen : "Some".toList.length = 4 := by decide
  simp only [keyword, hlen] at h
  simp only [opensAny, List.any_cons, List.any_nil, Bool.or_false]
  split at h
  · next hp =>
    obtain ⟨rfl, -⟩ := Prod.mk.inj (Option.some.inj h)
    exact hp
  · next hp =>
    obtain ⟨rfl, -⟩ := Prod.mk.inj (Option.some.inj h)
    simpa using hp

theorem firstWord_other {words : List (List Char)} {cs : List Char}
    (h : ∀ w ∈ words, keyword w cs = some (false, cs)) :
    firstWord words cs = some (false, cs) := by
  induction words with
  | nil => rfl
  | cons w words ih =>
    rw [firstWord, bind_some (h w (by simp))]
    exact ih fun w' hw => h w' (by simp [hw])

variable {bracket : Bool} {inner : Inner}

def skipUnnamed (bracket : Bool) (inner : Inner) (first : Option Char) : Reader Unit :=
  let opened (r : Reader Unit) : Reader Unit := if bracket then r else refuse
  match first with
  | some '(' => opened (parenthesised inner)
  | some '[' => opened do
    require ['[']
    elements ']' inner.element (← left) true
    blanks
    require [']']
  | some '\x7b' => opened do
    require ['\x7b']
    elements '\x7d' (keyed inner.element inner.element) (← left) true
    blanks
    require ['\x7d']
  | some '"' => do let _ ← string
  | some 'r' => do let _ ← string
  | some 'b' => do
    if ← ahead ['b', '\''] then do let _ ← byteChar
    else do let _ ← byteString
  | some '\'' => do let _ ← quotedChar
  | some c => if c.isDigit || c = '+' || c = '-' || c = '.' then anyNumber else refuse
  | none => refuse

/-- The words a value is told by begin with few letters. -/
theorem keywords_other (hc : c ∉ ['S', 't', 'f', 'N', 'i']) (rest : List Char) :
    (opensAny ["Some".toList] (c :: rest) && !nameGoesOn ((c :: rest).drop 4)) = false ∧
      firstWord valueWords (c :: rest) = some (false, c :: rest) := by
  have hkey : ∀ w ∈ reserved, keyword w (c :: rest) = some (false, c :: rest) := by
    intro w hw
    have hhead : ∃ d more, w = d :: more ∧ d ∈ ['S', 't', 'f', 'N', 'i'] := by
      simp only [reserved, valueWords, List.mem_cons, List.not_mem_nil, or_false] at hw
      rcases hw with rfl | rfl | rfl | rfl | rfl | rfl | rfl | rfl | rfl | rfl
      all_goals exact ⟨_, _, rfl, by decide⟩
    obtain ⟨d, more, rfl, hd⟩ := hhead
    refine keyword_head ?_ rest
    rintro rfl
    exact hc hd
  exact ⟨opensSome_eq (hkey _ (by simp [reserved])),
    firstWord_other fun w hw => hkey w (List.mem_cons_of_mem _ hw)⟩

theorem skipOne_unit (rest : List Char) :
    skipOne e bracket inner ('(' :: ')' :: rest) = some ((), rest) := by
  obtain ⟨hsome, hwords⟩ := keywords_other (c := '(') (by decide) (')' :: rest)
  simp only [skipOne, hsome, Bool.false_eq_true, if_false]
  rw [bind_some hwords]
  simp only [Bool.false_eq_true, if_false]
  rw [bind_some (accept_pair '(' ')' rest)]
  rfl

theorem skipOne_unnamed (hc : c ∉ ['S', 't', 'f', 'N', 'i'])
    (hunit : ['(', ')'].isPrefixOf (c :: rest) = false)
    (hn : name? (c :: rest) = some (none, c :: rest)) :
    skipOne e bracket inner (c :: rest) = skipUnnamed bracket inner (some c) (c :: rest) := by
  obtain ⟨hsome, hwords⟩ := keywords_other hc rest
  simp only [skipOne, hsome, Bool.false_eq_true, if_false]
  rw [bind_some hwords]
  simp only [Bool.false_eq_true, if_false]
  rw [bind_some (accept_other hunit)]
  simp only [Bool.false_eq_true, if_false]
  rw [bind_some hn]
  exact bind_some (peek_cons c rest) _

theorem reserved_plain : ∀ w ∈ reserved, isUndelimited w = true ∧ w ≠ [] ∧ w.head? ≠ some 'r' := by
  decide

/-- A keyword in front of a delimiter, or none of them. -/
theorem keyword_blank {key : List Char} (hk : key ∈ reserved) (hn : Name word text)
    (hne : text ≠ key) (hb : Blank b) (hc : isDelimiter c = true) (rest : List Char) :
    keyword key (text ++ (b ++ c :: rest)) = some (false, text ++ (b ++ c :: rest)) := by
  obtain ⟨hdel, hnil, hr⟩ := reserved_plain key hk
  rw [(delimited_keyword hdel).blank text hb hc rest, keyword_name hn hne hnil hr]
  rfl

theorem skipOne_word (hw : word ∈ valueWords) (hb : Blank b) (hc : isDelimiter c = true)
    (rest : List Char) :
    skipOne e bracket inner (word ++ (b ++ c :: rest)) = some ((), b ++ c :: rest) := by
  have hne : word ≠ "Some".toList := by
    rintro rfl
    exact absurd hw (by decide)
  have hsome := opensSome_eq
    (keyword_blank (by simp [reserved]) (name_of_mem_valueWords hw) hne hb hc rest)
  have hall : (valueWords.all fun w =>
      decide (firstWord valueWords w = some (true, []))) = true := by
    decide +kernel
  have hfirst := of_decide_eq_true (List.all_eq_true.mp hall word hw)
  have hwords := (delimited_firstWord fun w h =>
    (reserved_plain w (List.mem_cons_of_mem _ h)).1).before hfirst hb hc rest
  simp only [skipOne, hsome, Bool.false_eq_true, if_false]
  rw [bind_some hwords]
  rfl

/-- A name that is no keyword, and what its value goes on with if there is a parenthesis. -/
theorem skipOne_name (hn : Name word text) (hr : text ∉ reserved) (hb : Blank b)
    (hc : isDelimiter c = true) (hs : isSolid c = true) (rest : List Char) :
    skipOne e bracket inner (text ++ (b ++ c :: rest)) =
      if c = '(' then (if bracket then parenthesised inner else refuse) (c :: rest)
      else some ((), c :: rest) := by
  have hne : ∀ w ∈ reserved, text ≠ w := by
    rintro w hw rfl
    exact hr hw
  have hsome := opensSome_eq (keyword_blank (by simp [reserved]) hn (hne _ (by simp [reserved])) hb
    hc rest)
  have hwords := firstWord_other fun w hw => keyword_blank (List.mem_cons_of_mem _ hw) hn
    (hne _ (List.mem_cons_of_mem _ hw)) hb hc rest
  have hunit : ['(', ')'].isPrefixOf (text ++ (b ++ c :: rest)) = false := by
    obtain ⟨d, more, rfl, hd⟩ := hn.head
    have hd : '(' ≠ d := by
      rintro rfl
      exact Bool.false_ne_true ((isNameStart_sign (by decide)).symm.trans hd)
    simp [List.isPrefixOf, hd]
  have hname := delimited_name?.before (name?_whole hn) hb hc rest
  simp only [skipOne, hsome, Bool.false_eq_true, if_false]
  rw [bind_some hwords]
  simp only [Bool.false_eq_true, if_false]
  rw [bind_some (accept_other hunit)]
  simp only [Bool.false_eq_true, if_false]
  rw [bind_some hname]
  simp only
  rw [bind_some (blanks_append hb hs rest)]
  by_cases h : c = '('
  · subst h
    rw [bind_some (ahead_head '(' rest)]
    rfl
  · rw [bind_some (ahead_other (Ne.symm h)), if_neg h]
    rfl

theorem keyword_some : keyword "Some".toList "Some".toList = some (true, []) := by decide

theorem skipOne_some (hb : Blank b) (hc : isDelimiter c = true) (rest : List Char) :
    skipOne e bracket inner ("Some".toList ++ (b ++ c :: rest)) =
      (do let _ ← option e inner.optional : Reader Unit) ("Some".toList ++ (b ++ c :: rest)) := by
  have hkey := (delimited_keyword (show isUndelimited "Some".toList = true by decide)).before
    keyword_some hb hc rest
  simp only [skipOne, opensSome_eq hkey, if_true]

theorem takes_word (hw : word ∈ valueWords) : Takes (skipOne e bracket inner) () word := by
  rintro _ ⟨hb, hc⟩
  exact ⟨_, skipOne_word hw hb (isDelimiter_of_closes hc) _, rfl⟩

theorem takes_name (hn : Name word text) (hr : text ∉ reserved) :
    Takes (skipOne e bracket inner) () text := by
  rintro _ ⟨hb, hc⟩
  rename_i b rest c
  have hsolid := isSolid_of_closes hc
  have hne : c ≠ '(' := by
    rintro rfl
    exact absurd hc (by decide)
  refine ⟨c :: rest, ?_, ?_⟩
  · rw [skipOne_name hn hr hb (isDelimiter_of_closes hc) hsolid rest, if_neg hne]
  · rw [blanks_append hb hsolid rest, blanks_solid hsolid rest]

theorem takes_number (h : Number text) : Takes (skipOne e bracket inner) () text := by
  rintro _ ⟨hb, hc⟩
  rename_i b rest c
  refine ⟨_, ?_, rfl⟩
  have hread := delimited_anyNumber.before (anyNumber_whole h) hb (isDelimiter_of_closes hc) rest
  obtain ⟨d, more, rfl, hd⟩ := h.head
  have hmem := mem_of_opensNumber hd
  have hletters : d ∉ ['S', 't', 'f', 'N', 'i'] := by
    have hall : ∀ d ∈ ['0', '1', '2', '3', '4', '5', '6', '7', '8', '9', '+', '-', '.'],
        ¬ ['S', 't', 'f', 'N', 'i'].contains d = true := List.any_eq_false.mp (by decide)
    exact fun hin => hall d hmem (List.contains_iff_mem.mpr hin)
  have hunit : ∀ more, ['(', ')'].isPrefixOf (d :: more) = false := by
    have hne : '(' ≠ d := by
      rintro rfl
      exact absurd hd (by decide)
    simp [List.isPrefixOf, hne]
  have hskip : skipUnnamed bracket inner (some d) = anyNumber := by
    simp only [List.mem_cons, List.not_mem_nil, or_false] at hmem
    rcases hmem with rfl | rfl | rfl | rfl | rfl | rfl | rfl | rfl | rfl | rfl | rfl | rfl | rfl <;>
      rfl
  rw [List.cons_append, skipOne_unnamed hletters (hunit _)
    (name?_other (opensNumber_isNameStart hd) _), hskip]
  exact hread

theorem takes_quoted (h : Quoted text) : Takes (skipOne e bracket inner) () text := by
  refine takes_of_append fun tail => ?_
  have hname := name?_quoted h tail
  cases h with
  | @string text h =>
    obtain ⟨cs, hcs⟩ := string_append h tail
    have htext : '"' :: (text ++ ['"']) ++ tail = '"' :: (text ++ '"' :: tail) := by simp
    rw [htext] at hname ⊢
    rw [skipOne_unnamed (by decide) (by simp [List.isPrefixOf]) hname]
    exact bind_some hcs _
  | @byteString text h =>
    obtain ⟨cs, hcs⟩ := byteString_append h tail
    have htext : 'b' :: '"' :: (text ++ ['"']) ++ tail = 'b' :: '"' :: (text ++ '"' :: tail) := by
      simp
    rw [htext] at hname ⊢
    rw [skipOne_unnamed (by decide) (by simp [List.isPrefixOf]) hname]
    have hahead : ahead ['b', '\''] ('b' :: '"' :: (text ++ '"' :: tail)) =
        some (false, 'b' :: '"' :: (text ++ '"' :: tail)) := rfl
    exact (bind_some hahead _).trans (bind_some hcs _)
  | @rawString text h =>
    obtain ⟨cs, hcs⟩ := rawString_append h tail
    rw [List.cons_append] at hname ⊢
    rw [skipOne_unnamed (by decide) (by simp [List.isPrefixOf]) hname]
    exact bind_some hcs _
  | @rawByteString text h =>
    obtain ⟨cs, hcs⟩ := rawByteString_append h tail
    rw [List.cons_append, List.cons_append] at hname ⊢
    rw [skipOne_unnamed (by decide) (by simp [List.isPrefixOf]) hname]
    have hahead : ahead ['b', '\''] ('b' :: 'r' :: (text ++ tail)) =
        some (false, 'b' :: 'r' :: (text ++ tail)) := rfl
    exact (bind_some hahead _).trans (bind_some hcs _)
  | @char text h =>
    obtain ⟨c, hc⟩ := quotedChar_append h tail
    have htext : '\'' :: (text ++ ['\'']) ++ tail = '\'' :: (text ++ '\'' :: tail) := by simp
    rw [htext] at hname ⊢
    rw [skipOne_unnamed (by decide) (by simp [List.isPrefixOf]) hname]
    exact bind_some hc _
  | @byteChar text h =>
    obtain ⟨c, hc⟩ := byteChar_append h tail
    have htext : 'b' :: '\'' :: (text ++ ['\'']) ++ tail =
        'b' :: '\'' :: (text ++ '\'' :: tail) := by
      simp
    rw [htext] at hname ⊢
    rw [skipOne_unnamed (by decide) (by simp [List.isPrefixOf]) hname]
    have hahead : ahead ['b', '\''] ('b' :: '\'' :: (text ++ '\'' :: tail)) =
        some (true, 'b' :: '\'' :: (text ++ '\'' :: tail)) := by
      simp [ahead, List.isPrefixOf]
    exact (bind_some hahead _).trans (bind_some hc _)

/-- An option, whether somebody wants its value or not. -/
theorem takes_option {α : Type} {r : Reader α} {a : α} {comma? : Bool} {b b' b'' : List Char}
    (hb : Blank b) (hb' : Blank b') (hv : Takes r a value) (ho : Opens value)
    (hb'' : Comma comma? b'') (rest : List Char) :
    option e r ("Some".toList ++ (b ++ '(' :: (b' ++ (value ++ (b'' ++ ')' :: rest))))) =
      some (some a, rest) := by
  have hopen : isDelimiter '(' = true := by decide
  have hsome := (delimited_keyword (show isUndelimited "Some".toList = true by decide)).before
    keyword_some hb hopen (b' ++ (value ++ (b'' ++ ')' :: rest)))
  have hnone := (delimited_keyword (show isUndelimited "None".toList = true by decide)).blank
    "Some".toList hb hopen (b' ++ (value ++ (b'' ++ ')' :: rest)))
  have hno : keyword "None".toList "Some".toList = some (false, "Some".toList) := by decide
  rw [hno] at hnone
  obtain ⟨left, hl, hleft⟩ := hv _
    (hb''.ends_closing (show closes ')' = true by decide) rest)
  have hcomma := comma_append hb'' (c := ')') (by decide) (by decide) rest
  rw [option, bind_some hnone]
  simp only [Bool.false_eq_true, if_false]
  rw [bind_apply, bind_some hsome, if_pos rfl, bind_some (blanks_append hb (by decide) _),
    accept_head]
  show (do blanks; _ : Reader (Option α)) _ = _
  rw [bind_some (blanks_opens hb' ho _), bind_some hl,
    bind_some ((comma_congr hleft).trans hcomma), bind_some (require_head ')' rest)]
  rfl

/-- What stands between the parentheses, with or without a name before them. -/
theorem takes_titled {title : List Char} (ht : Title title)
    (hp : ∀ rest, parenthesised inner ('(' :: (text ++ ')' :: rest)) = some ((), rest))
    (hhead : ∀ c more, text = c :: more → closes c = false) :
    Takes (skipOne e true inner) () (title ++ '(' :: (text ++ [')'])) := by
  refine takes_of_append fun tail => ?_
  have htext : title ++ '(' :: (text ++ [')']) ++ tail = title ++ '(' :: (text ++ ')' :: tail) := by
    simp
  rw [htext]
  cases ht with
  | none =>
    cases text with
    | nil => exact skipOne_unit tail
    | cons c more =>
      have hne : ')' ≠ c := by
        rintro rfl
        exact absurd (hhead ')' more rfl) (by decide)
      have hunit : ['(', ')'].isPrefixOf ('(' :: (c :: more ++ ')' :: tail)) = false := by
        simp [List.isPrefixOf, hne]
      rw [List.nil_append,
        skipOne_unnamed (by decide) hunit (name?_other (isNameStart_sign (by decide)) _)]
      exact hp tail
  | name hn hr hb =>
    rw [List.append_assoc, skipOne_name hn hr hb (by decide) (by decide), if_pos rfl, if_pos rfl]
    exact hp tail

theorem takes_list {items : List (List Char)} (h : Items items text) (ho : ∀ i ∈ items, Opens i)
    (hi : ∀ i ∈ items, Takes inner.element () i) :
    Takes (skipOne e true inner) () ('[' :: (text ++ [']'])) := by
  refine takes_of_append fun tail => ?_
  have htext : '[' :: (text ++ [']']) ++ tail = '[' :: (text ++ ']' :: tail) := by simp
  have hlen := h.length_le ho
  have helements := elements_items h (show closes ']' = true by decide) (by decide) ho hi
    (show items.length < (text ++ ']' :: tail).length by simp; omega) (fun _ => rfl) tail
  rw [htext, skipOne_unnamed (by decide) (by simp [List.isPrefixOf])
    (name?_other (isNameStart_sign (by decide)) _)]
  show (do require ['[']; _ : Reader Unit) _ = _
  rw [bind_some (require_head '[' _), bind_some (left_apply _), bind_some helements,
    bind_some (blanks_solid (by decide) tail)]
  exact require_head ']' tail

theorem takes_map {items : List (List Char)} (h : Items items text) (ho : ∀ i ∈ items, Opens i)
    (hi : ∀ i ∈ items, Takes (keyed inner.element inner.element) () i) :
    Takes (skipOne e true inner) () ('\x7b' :: (text ++ ['\x7d'])) := by
  refine takes_of_append fun tail => ?_
  have htext : '\x7b' :: (text ++ ['\x7d']) ++ tail = '\x7b' :: (text ++ '\x7d' :: tail) := by simp
  have hlen := h.length_le ho
  have helements := elements_items h (show closes '\x7d' = true by decide) (by decide) ho hi
    (show items.length < (text ++ '\x7d' :: tail).length by simp; omega) (fun _ => rfl) tail
  rw [htext, skipOne_unnamed (by decide) (by simp [List.isPrefixOf])
    (name?_other (isNameStart_sign (by decide)) _)]
  show (do require ['\x7b']; _ : Reader Unit) _ = _
  rw [bind_some (require_head '\x7b' _), bind_some (left_apply _), bind_some helements,
    bind_some (blanks_solid (by decide) tail)]
  exact require_head '\x7d' tail

end Reader

/-! Every value -/

theorem Entry.opens {e : Entry} (h : Opens e.key) : Opens e.text := h.append _

theorem entries_open {entries : List Entry} (h : ∀ e ∈ entries, Opens e.key) :
    ∀ i ∈ entries.map Entry.text, Opens i := by
  intro i hi
  obtain ⟨e, he, rfl⟩ := List.mem_map.mp hi
  exact Entry.opens (h e he)

/-- What is inside a bracket is read with the rest of the budget, if anything is. -/
theorem element_eq {α : Type} {items : List α} {n : Nat} (h : items = [] ∨ 0 < n) (hne : items ≠ [])
    (e : Extensions) : (innerAt e (n + 1)).element = skipValue e (n - 1) ∧
      (innerAt e (n + 1)).fieldName = (do let _ ← name) := by
  have hn := h.resolve_left hne
  have hlt : 1 < n + 1 := by omega
  exact ⟨if_pos hlt, if_pos hlt⟩

theorem takes_entries {entries : List Entry} {key element : Reader Unit}
    (hk : ∀ e ∈ entries, Takes key () e.key) (hv : ∀ e ∈ entries, Takes element () e.value)
    (ho : ∀ e ∈ entries, Opens e.value) (hs : ∀ e ∈ entries, e.Spaced) :
    ∀ i ∈ entries.map Entry.text, Takes (keyed key element) () i := by
  intro i hi
  obtain ⟨e, he, rfl⟩ := List.mem_map.mp hi
  exact takes_keyed (hs e he) (hk e he) (hv e he) (ho e he)

theorem takes_fieldName (hn : Name word text) : Takes (do let _ ← name) () text :=
  (delimited_name.takes (name_whole hn)).discard

/-- A value that nests within the budget is skipped, by induction on the value: a bracket takes its
items to be skipped with what is left of the budget. -/
theorem Value.takes (h : Value n value) (e : Extensions) : Takes (skipValue e n) () value := by
  induction h with
  | word hw =>
    rw [skipValue_eq]
    exact takes_word hw
  | name hn hr =>
    rw [skipValue_eq]
    exact takes_name hn hr
  | number hn =>
    rw [skipValue_eq]
    exact takes_number hn
  | quoted hq =>
    rw [skipValue_eq]
    exact takes_quoted hq
  | unit =>
    rw [skipValue_eq]
    exact takes_of_append skipOne_unit
  | @some n comma b b' b'' value hb hb' hv hb'' ih =>
    rw [skipValue_eq]
    refine takes_of_append fun tail => ?_
    have htext : "Some".toList ++ (b ++ '(' :: (b' ++ (value ++ (b'' ++ [')'])))) ++ tail =
        "Some".toList ++ (b ++ '(' :: (b' ++ (value ++ (b'' ++ ')' :: tail)))) := by
      simp
    rw [htext, skipOne_some hb (by decide)]
    exact bind_some (takes_option hb hb' ih hv.opens hb'' tail) _
  | @list n text items hi hn hitems ih =>
    rw [skipValue_eq]
    refine takes_list hitems (fun i h => (hi i h).opens) fun i h => ?_
    rw [(element_eq hn (List.ne_nil_of_mem h) e).1]
    exact ih i h
  | @map n text entries hk hv hs hn hitems ihk ihv =>
    rw [skipValue_eq]
    refine takes_map hitems (entries_open fun e h => (hk e h).opens) ?_
    cases entries with
    | nil => simp
    | cons entry entries =>
      rw [(element_eq hn (List.cons_ne_nil _ _) e).1]
      exact takes_entries ihk ihv (fun e h => (hv e h).opens) hs
  | @tuple n title text items ht hi hn hitems ih =>
    rw [skipValue_eq]
    have ho : ∀ i ∈ items, Opens i := fun i h => (hi i h).opens
    refine takes_titled ht (fun rest => ?_) fun c more htext => ?_
    · refine parenthesised_items hitems (namesField_items hitems hi rest) rfl ho fun i h => ?_
      rw [if_neg Bool.false_ne_true, (element_eq hn (List.ne_nil_of_mem h) e).1]
      exact ih i h
    · subst htext
      exact hitems.head ho
  | @record n title text entries ht hk hv hs hn hitems ih =>
    rw [skipValue_eq]
    have ho : ∀ i ∈ entries.map Entry.text, Opens i := entries_open fun e h => by
      obtain ⟨word, hname⟩ := hk e h
      simpa using hname.opens []
    refine takes_titled ht (fun rest => ?_) fun c more htext => ?_
    · refine parenthesised_items hitems (namesField_entries hitems hk hs rest) rfl ho ?_
      cases entries with
      | nil => simp
      | cons entry entries =>
        obtain ⟨helement, hfield⟩ := element_eq hn (List.cons_ne_nil _ _) e
        rw [if_pos (by simp), helement, hfield]
        refine takes_entries (fun e h => ?_) ih (fun e h => (hv e h).opens) hs
        obtain ⟨word, hname⟩ := hk e h
        exact takes_fieldName hname
    · subst htext
      exact hitems.head ho

end Sequencer.Text
