import Sequencer.Proofs.Text.Reading

/-!
# Tokens end at delimiters

Between two values stand brackets, commas, colons, blanks and comments. No token goes on over the
first character of any of these, so a reader of tokens takes in front of a delimiter what it takes
of the same text alone. Readers put together from such readers are such readers.
-/

set_option autoImplicit false

namespace Sequencer.Text

def delimiters : List Char :=
  ['(', ')', '[', ']', '\x7b', '\x7d', ',', ':', '/', ' ', '\t', '\n', '\x0b', '\x0c', '\r',
    '\u0085', '\u200e', '\u200f', '\u2028', '\u2029']

def isDelimiter (c : Char) : Bool := delimiters.contains c

variable {c : Char}

theorem isDelimiter_of_isBlank (h : isBlank c = true) : isDelimiter c = true := by
  have hcode : c.toNat ∈ [9, 10, 11, 12, 13, 0x20, 0x85, 0x200e, 0x200f, 0x2028, 0x2029] := by
    simp only [isBlank, Bool.or_eq_true, Bool.and_eq_true, decide_eq_true_eq] at h
    simp only [List.mem_cons, List.not_mem_nil, or_false]
    omega
  have hall : ∀ n ∈ [9, 10, 11, 12, 13, 0x20, 0x85, 0x200e, 0x200f, 0x2028, 0x2029],
      isDelimiter (Char.ofNat n) = true := by
    decide
  rw [← Char.ofNat_toNat c]
  exact hall _ hcode

def isSign (c : Char) : Bool := (delimiters ++ ['"', '\'', '#', '.', '+', '-']).contains c

theorem isNameContinue_sign (h : isSign c = true) : isNameContinue c = false := by
  have hnone : (delimiters ++ ['"', '\'', '#', '.', '+', '-']).any isNameContinue = false := by
    decide +kernel
  exact Bool.eq_false_iff.mpr (List.any_eq_false.mp hnone c (List.contains_iff_mem.mp h))

theorem isNameContinue_of_isNameStart (h : isNameStart c = true) : isNameContinue c = true := by
  simp only [isNameStart, Bool.or_eq_true, decide_eq_true_eq] at h
  rcases h with rfl | h
  · decide +kernel
  · simp [isNameContinue, h]

theorem isNameStart_sign (h : isSign c = true) : isNameStart c = false := by
  rw [Bool.eq_false_iff]
  intro hstart
  exact Bool.false_ne_true
    ((isNameContinue_sign h).symm.trans (isNameContinue_of_isNameStart hstart))

theorem isSign_of_isDelimiter (h : isDelimiter c = true) : isSign c = true := by
  rw [isSign, List.contains_iff_mem, List.mem_append]
  exact .inl (List.contains_iff_mem.mp h)

/-- There are few delimiters, and what excludes a class of characters is seen from each. -/
theorem not_of_isDelimiter {p : Char → Bool} (h : (delimiters.any p) = false)
    (hc : isDelimiter c = true) : p c = false := by
  rw [List.any_eq_false] at h
  simpa using h c (by simpa [isDelimiter] using hc)

theorem isNameContinue_delimiter (h : isDelimiter c = true) : isNameContinue c = false :=
  isNameContinue_sign (isSign_of_isDelimiter h)

theorem isRawNameChar_delimiter (h : isDelimiter c = true) : isRawNameChar c = false := by
  have hnone : delimiters.any ['.', '+', '-'].contains = false := by decide
  simpa [isRawNameChar, isNameContinue_delimiter h, and_assoc] using not_of_isDelimiter hnone h

theorem isIntChar_delimiter (h : isDelimiter c = true) : isIntChar c = false :=
  not_of_isDelimiter (by decide) h

theorem isFloatChar_delimiter (h : isDelimiter c = true) : isFloatChar c = false :=
  not_of_isDelimiter (by decide) h

def isUndelimited (word : List Char) : Bool := word.all fun c => !isDelimiter c

theorem isPrefixOf_delimiter {word : List Char} (hw : isUndelimited word = true)
    (hc : isDelimiter c = true) (text rest : List Char) :
    word.isPrefixOf (text ++ c :: rest) = word.isPrefixOf text := by
  induction word generalizing text with
  | nil => simp
  | cons d word ih =>
    simp only [isUndelimited, List.all_cons, Bool.and_eq_true, Bool.not_eq_true'] at hw
    cases text with
    | nil =>
      have hne : d ≠ c := by
        rintro rfl
        exact Bool.false_ne_true (hw.1.symm.trans hc)
      simp [List.isPrefixOf, hne]
    | cons e text => simp [List.isPrefixOf, ih hw.2]

theorem isPrefixOf_drop {word text : List Char} (h : word.isPrefixOf text = true)
    (rest : List Char) : (text ++ rest).drop word.length = text.drop word.length ++ rest := by
  have hle := (List.isPrefixOf_iff_prefix.mp h).length_le
  rw [List.drop_append_of_le_length hle]

theorem nameGoesOn_delimiter (hc : isDelimiter c = true) (text rest : List Char) :
    nameGoesOn (text ++ c :: rest) = nameGoesOn text := by
  cases text with
  | nil => exact isNameContinue_delimiter hc
  | cons d text => rfl

namespace Reader

variable {α β : Type}

def Delimited (r : Reader α) : Prop :=
  ∀ (text : List Char) (c : Char) (rest : List Char), isDelimiter c = true →
    r (text ++ c :: rest) = (r text).map fun p => (p.1, p.2 ++ c :: rest)

theorem delimited_pure (a : α) : Delimited (pure a) := fun _ _ _ _ => rfl

theorem delimited_refuse : Delimited (refuse : Reader α) := fun _ _ _ _ => rfl

theorem Delimited.bind {x : Reader α} {f : α → Reader β} (hx : Delimited x)
    (hf : ∀ a, Delimited (f a)) : Delimited (x >>= f) := by
  intro text c rest hc
  rw [bind_apply, bind_apply, hx text c rest hc]
  cases x text with
  | none => rfl
  | some p => exact hf p.1 p.2 c rest hc

theorem Delimited.ite {p : Prop} [Decidable p] {x y : Reader α} (hx : Delimited x)
    (hy : Delimited y) : Delimited (if p then x else y) := by
  split
  · exact hx
  · exact hy

theorem delimited_accept {word : List Char} (hw : isUndelimited word = true) :
    Delimited (accept word) := by
  intro text c rest hc
  simp only [accept, isPrefixOf_delimiter hw hc]
  split
  · next h => simp [isPrefixOf_drop h]
  · rfl

theorem delimited_ahead {word : List Char} (hw : isUndelimited word = true) :
    Delimited (ahead word) := by
  intro text c rest hc
  simp [ahead, isPrefixOf_delimiter hw hc]

theorem delimited_takeWhile {p : Char → Bool} (hp : ∀ c, isDelimiter c = true → p c = false) :
    Delimited (takeWhile p) := by
  intro text c rest hc
  induction text with
  | nil => simp [takeWhile, hp c hc]
  | cons d text ih =>
    simp only [takeWhile, Option.map_some, Option.some.injEq, Prod.mk.injEq] at ih ⊢
    by_cases hd : p d = true
    · simp [hd, ih]
    · simp [hd]

theorem delimited_keyword {word : List Char} (hw : isUndelimited word = true) :
    Delimited (keyword word) := by
  intro text c rest hc
  simp only [keyword, isPrefixOf_delimiter hw hc]
  cases h : word.isPrefixOf text with
  | false => rfl
  | true =>
    rw [isPrefixOf_drop h, nameGoesOn_delimiter hc]
    split <;> rfl

theorem delimited_firstWord {words : List (List Char)}
    (hw : ∀ w ∈ words, isUndelimited w = true) : Delimited (firstWord words) := by
  induction words with
  | nil => exact delimited_pure _
  | cons w words ih =>
    refine (delimited_keyword (hw w (by simp))).bind fun _ => ?_
    exact .ite (delimited_pure _) (ih fun w' h => hw w' (by simp [h]))

theorem opensAny_delimiter {openings : List (List Char)}
    (ho : openings.all isUndelimited = true) (hc : isDelimiter c = true)
    (text rest : List Char) : opensAny openings (text ++ c :: rest) = opensAny openings text := by
  induction openings with
  | nil => rfl
  | cons o openings ih =>
    simp only [List.all_cons, Bool.and_eq_true] at ho
    have ih := ih ho.2
    simp only [opensAny] at ih
    simp [opensAny, isPrefixOf_delimiter ho.1 hc, ih]

theorem takeWhile_delimiter {p : Char → Bool} (hp : p c = false) (text rest : List Char) :
    (text ++ c :: rest).takeWhile p = text.takeWhile p ∧
      (text ++ c :: rest).dropWhile p = text.dropWhile p ++ c :: rest := by
  induction text with
  | nil => simp [hp]
  | cons d text ih => by_cases hd : p d = true <;> simp [hd, ih]

theorem delimited_name : Delimited name := by
  intro text c rest hc
  cases text with
  | nil => simp [name, isNameStart_sign (isSign_of_isDelimiter hc)]
  | cons d text =>
    have hbytes := opensAny_delimiter (show byteOpenings.all isUndelimited = true by decide) hc
      (d :: text) rest
    have hraw := isPrefixOf_delimiter (show isUndelimited ['r', '#'] = true by decide) hc
      (d :: text) rest
    have hplain := takeWhile_delimiter (isNameContinue_delimiter hc) (d :: text) rest
    have hlong := takeWhile_delimiter (isRawNameChar_delimiter hc) (d :: text) rest
    rw [List.cons_append] at hbytes hraw hplain hlong ⊢
    simp only [name, hbytes, hraw, hplain.1, hplain.2, hlong.1]
    split
    · rfl
    · split
      · next h =>
        have hdrop := isPrefixOf_drop h (c :: rest)
        have hbody := takeWhile_delimiter (isRawNameChar_delimiter hc) ((d :: text).drop 2) rest
        rw [show (2 : Nat) = ['r', '#'].length from rfl] at hbody ⊢
        rw [List.cons_append] at hdrop
        simp only [hdrop, hbody.1, hbody.2]
        split <;> rfl
      · split <;> rfl

/-- A name that opens a value, or none. -/
theorem delimited_name? : Delimited name? := by
  intro text c rest hc
  cases text with
  | nil =>
    have hbytes := opensAny_delimiter (show byteOpenings.all isUndelimited = true by decide) hc
      [] rest
    have hraws := opensAny_delimiter (show rawOpenings.all isUndelimited = true by decide) hc
      [] rest
    have hraw := isPrefixOf_delimiter (show isUndelimited ['r', '#'] = true by decide) hc [] rest
    rw [List.nil_append] at hbytes hraws hraw
    simp only [List.nil_append, name?, hbytes, hraws, hraw,
      isNameStart_sign (isSign_of_isDelimiter hc)]
    rfl
  | cons d text =>
    have hbytes := opensAny_delimiter (show byteOpenings.all isUndelimited = true by decide) hc
      (d :: text) rest
    have hraws := opensAny_delimiter (show rawOpenings.all isUndelimited = true by decide) hc
      (d :: text) rest
    have hraw := isPrefixOf_delimiter (show isUndelimited ['r', '#'] = true by decide) hc
      (d :: text) rest
    have hplain := takeWhile_delimiter (isNameContinue_delimiter hc) text rest
    rw [List.cons_append] at hbytes hraws hraw ⊢
    simp only [name?, hbytes, hraws, hraw, hplain.1, hplain.2]
    split
    · rfl
    · split
      · next h =>
        have hdrop := isPrefixOf_drop h (c :: rest)
        have hbody := takeWhile_delimiter (isRawNameChar_delimiter hc) ((d :: text).drop 2) rest
        rw [show (2 : Nat) = ['r', '#'].length from rfl] at hbody ⊢
        rw [List.cons_append] at hdrop
        simp only [hdrop, hbody.1, hbody.2]
        split <;> rfl
      · split <;> rfl

/-! Numbers -/

theorem delimited_base : Delimited base :=
  (delimited_accept (by decide)).bind fun _ => .ite (delimited_pure _) <|
    (delimited_accept (by decide)).bind fun _ => .ite (delimited_pure _) <|
      (delimited_accept (by decide)).bind fun _ => .ite (delimited_pure _) (delimited_pure _)

theorem delimited_natural : Delimited natural := by
  refine delimited_base.bind fun b => (delimited_ahead (by decide)).bind fun _ => ?_
  refine .ite delimited_refuse ?_
  refine (delimited_takeWhile fun _ => isIntChar_delimiter).bind fun run => ?_
  refine .ite delimited_refuse ?_
  split
  · exact delimited_pure _
  · exact delimited_refuse

theorem delimited_minus : Delimited minus :=
  (delimited_accept (by decide)).bind fun _ => .ite (delimited_pure _) <|
    (delimited_accept (by decide)).bind fun _ => delimited_pure _

theorem delimited_firstKeyword {types : List (List Char × Nat × Nat)}
    (ht : ∀ t ∈ types, isUndelimited t.1 = true) : Delimited (firstKeyword types) := by
  induction types with
  | nil => exact delimited_pure _
  | cons t types ih =>
    refine (delimited_keyword (ht t (by simp))).bind fun _ => ?_
    exact .ite (delimited_pure _) (ih fun t' h => ht t' (by simp [h]))

theorem delimited_integer {types : List (List Char × Nat × Nat)}
    (ht : ∀ t ∈ types, isUndelimited t.1 = true) (down up : Nat) :
    Delimited (integer types down up) := by
  refine delimited_minus.bind fun negative => delimited_natural.bind fun n => ?_
  refine .bind ?_ fun bounds => ?_
  · refine (delimited_firstKeyword ht).bind fun t => ?_
    split <;> exact delimited_pure _
  · exact .ite (.ite (delimited_pure _) delimited_refuse) (.ite (delimited_pure _) delimited_refuse)

theorem delimited_acceptSuffixed {word : List Char} {suffixes : List (List Char)}
    (hs : ∀ s ∈ suffixes, isUndelimited (word ++ s) = true) :
    Delimited (floatWord.acceptSuffixed word suffixes) := by
  induction suffixes with
  | nil => exact delimited_pure _
  | cons s suffixes ih =>
    refine (delimited_keyword (hs s (by simp))).bind fun _ => ?_
    exact .ite (delimited_pure _) (ih fun s' h => hs s' (by simp [h]))

theorem delimited_floatWord {wide : Bool} {words : List (List Char × UInt32)}
    (hw : ∀ w ∈ words, isUndelimited w.1 = true ∧
      ∀ s ∈ floatSuffixes wide, isUndelimited (w.1 ++ s) = true) :
    Delimited (floatWord wide words) := by
  induction words with
  | nil => exact delimited_pure _
  | cons w words ih =>
    refine (delimited_keyword (hw w (by simp)).1).bind fun _ => .ite (delimited_pure _) ?_
    refine (delimited_acceptSuffixed (hw w (by simp)).2).bind fun _ => ?_
    exact .ite (delimited_pure _) (ih fun w' h => hw w' (by simp [h]))

theorem delimited_floatSuffix {suffixes : List (List Char)}
    (hs : ∀ s ∈ suffixes, isUndelimited s = true) : Delimited (floatSuffix suffixes) := by
  induction suffixes with
  | nil => exact delimited_pure _
  | cons s suffixes ih =>
    refine (delimited_keyword (hs s (by simp))).bind fun _ => ?_
    exact .ite (delimited_pure _) (ih fun s' h => hs s' (by simp [h]))

theorem delimited_float (wide : Bool) : Delimited (float wide) := by
  have hwords : ∀ w ∈ floatWords, isUndelimited w.1 = true ∧
      ∀ s ∈ floatSuffixes wide, isUndelimited (w.1 ++ s) = true := by
    cases wide <;> decide
  refine (delimited_floatWord hwords).bind fun x => ?_
  split
  · exact delimited_pure _
  · refine (delimited_takeWhile fun _ => isFloatChar_delimiter).bind fun run => ?_
    refine .ite delimited_refuse ?_
    split
    · refine .bind (delimited_floatSuffix ?_) fun _ => delimited_pure _
      cases wide <;> decide
    · exact delimited_refuse

/-- Which way a number is read is decided by two runs of characters, which end at a delimiter. -/
theorem delimited_anyNumber : Delimited anyNumber := by
  intro text c rest hc
  have hint := delimited_integer (show ∀ t ∈ integerTypes, isUndelimited t.1 = true by decide)
    (Decimal.pow2 127) (Decimal.pow2 128 - 1) text c rest hc
  have hfloat := delimited_float true text c rest hc
  have hsigns : ∀ sign : Char, isDelimiter sign = false → c ≠ sign := by
    rintro sign hs rfl
    exact Bool.false_ne_true (hs.symm.trans hc)
  have hbody : (if (text ++ c :: rest).head? = some '+' ∨ (text ++ c :: rest).head? = some '-'
      then (text ++ c :: rest).tail else text ++ c :: rest) =
      (if text.head? = some '+' ∨ text.head? = some '-' then text.tail else text) ++ c :: rest := by
    cases text with
    | nil => simp [hsigns '+' (by decide), hsigns '-' (by decide)]
    | cons d text => by_cases hd : d = '+' ∨ d = '-' <;> simp [hd]
  have hfloats (body : List Char) := takeWhile_delimiter (isFloatChar_delimiter hc) body rest
  have hints (body : List Char) := takeWhile_delimiter (isIntChar_delimiter hc) body rest
  have hbase (body : List Char) := delimited_base body c rest hc
  simp only [anyNumber, hbody, (hfloats _).1, (hints _).1, hint, hfloat, hbase]
  generalize (if text.head? = some '+' ∨ text.head? = some '-' then text.tail else text) = body
  split
  · cases float true text <;> rfl
  · cases integer integerTypes (Decimal.pow2 127) (Decimal.pow2 128 - 1) text with
    | some r => rfl
    | none =>
      cases base body with
      | none => rfl
      | some b =>
        obtain ⟨b, left⟩ := b
        by_cases hb : b = 10
        · subst hb
          cases float true text <;> rfl
        · simp [hb]

end Reader

end Sequencer.Text
