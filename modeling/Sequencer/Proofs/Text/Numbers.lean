import Sequencer.Proofs.Text.Digits
import Sequencer.Proofs.Text.Names

/-!
# Numbers are read

The texts of a single-precision number and the texts of a number of any type, with the suffixes
both may have. Each is read whole: what looks like the beginning of a whole number and turns out
to have a point, an exponent or too many digits is read again as a decimal.
-/

set_option autoImplicit false

namespace Sequencer.Text

open Reader

inductive FloatText (wide : Bool) : Float32 → List Char → Prop
  | word {word suffix : List Char} {bits : UInt32} : (word, bits) ∈ floatWords →
      suffix ∈ [] :: floatSuffixes wide → FloatText wide (.ofBits bits) (word ++ suffix)
  | digits {run suffix : List Char} {d : Scientific} : (∀ c ∈ run, isFloatChar c = true) →
      run.head? ≠ some '_' → underscoresOk false run = true →
      Scientific.ofChars? (run.filter (· ≠ '_')) = some d →
      suffix ∈ [] :: floatSuffixes wide → FloatText wide d.toFloat32 (run ++ suffix)

def bases : List (List Char × Nat) :=
  [([], 10), (['0', 'b'], 2), (['0', 'o'], 8), (['0', 'x'], 16)]

def integerSuffixes : List (List Char × Nat × Nat) :=
  ([], Decimal.pow2 127, Decimal.pow2 128 - 1) :: integerTypes

def opensNumber (c : Char) : Bool := c.isDigit || c = '+' || c = '-' || c = '.'

inductive Number : List Char → Prop
  | whole {sign mark run suffix : List Char} {base n down up : Nat} :
      sign ∈ [[], ['+'], ['-']] → (mark, base) ∈ bases → run ≠ [] → run.head? ≠ some '_' →
      (∀ c ∈ run, isIntChar c = true) → ofDigits base (run.filter (· ≠ '_')) 0 = some n →
      (suffix, down, up) ∈ integerSuffixes → n ≤ (if sign = ['-'] then down else up) →
      Number (sign ++ (mark ++ (run ++ suffix)))
  | decimal {x : Float32} {c : Char} {text : List Char} : FloatText true x (c :: text) →
      opensNumber c = true → Number (c :: text)

variable {wide : Bool} {x : Float32} {c : Char} {text run suffix : List Char} {b m n : Nat}

/-! Single precision -/

/-- What may stand behind a number in single precision, if anything does. -/
theorem floatSuffix_chars (h : suffix ∈ [] :: floatSuffixes wide) :
    (∀ d ∈ suffix.head?, d = 'f') ∧ ∀ d ∈ suffix, d ∈ ['f', '3', '2', '6', '4'] := by
  have hall : ∀ wide, ∀ s ∈ [] :: floatSuffixes wide,
      s ∈ [[], ['f', '3', '2'], ['f', '6', '4']] := by
    decide
  have hs := hall wide suffix h
  simp only [List.mem_cons, List.not_mem_nil, or_false] at hs
  rcases hs with rfl | rfl | rfl <;> simp

/-- The end of a run of characters before a suffix that begins otherwise. -/
theorem takeWhile_suffix {p : Char → Bool} (hrun : ∀ d ∈ run, p d = true)
    (hsuffix : ∀ d ∈ suffix.head?, p d = false) :
    Reader.takeWhile p (run ++ suffix) = some (run, suffix) := by
  cases suffix with
  | nil => simp [Reader.takeWhile, List.takeWhile_eq_self_iff.mpr hrun,
      List.dropWhile_eq_nil_iff.mpr hrun]
  | cons d suffix => exact takeWhile_append hrun (hsuffix d rfl) suffix

theorem takeWhile_floatSuffix (hrun : ∀ c ∈ run, isFloatChar c = true)
    (hs : suffix ∈ [] :: floatSuffixes wide) :
    Reader.takeWhile isFloatChar (run ++ suffix) = some (run, suffix) := by
  refine takeWhile_suffix hrun fun d hd => ?_
  rw [(floatSuffix_chars hs).1 d hd]
  decide

namespace Reader

theorem acceptSuffixed_other {word : List Char} (h : word.isPrefixOf text = false)
    (suffixes : List (List Char)) :
    floatWord.acceptSuffixed word suffixes text = some (false, text) := by
  induction suffixes with
  | nil => rfl
  | cons s suffixes ih =>
    have hno : (word ++ s).isPrefixOf text = false := by
      rw [Bool.eq_false_iff] at h ⊢
      intro hp
      apply h
      rw [List.isPrefixOf_iff_prefix] at hp ⊢
      exact (List.prefix_append word s).trans hp
    have hkey : keyword (word ++ s) text = some (false, text) := by simp [keyword, hno]
    rw [floatWord.acceptSuffixed, bind_some hkey]
    exact ih

theorem floatWord_other {words : List (List Char × UInt32)}
    (h : ∀ w ∈ words, w.1.isPrefixOf text = false) :
    floatWord wide words text = some (none, text) := by
  induction words with
  | nil => rfl
  | cons w words ih =>
    have hw := h w (by simp)
    have hkey : keyword w.1 text = some (false, text) := by simp [keyword, hw]
    rw [floatWord, bind_some hkey]
    simp only [Bool.false_eq_true, if_false]
    rw [bind_some (acceptSuffixed_other hw _)]
    exact ih fun w' h' => h w' (by simp [h'])

/-- Every word has a letter that no decimal and no suffix has. -/
theorem floatWords_marked : ∀ w ∈ floatWords,
    w.1.any (fun c => !isFloatChar c && !(['f', '3', '2', '6', '4'].contains c)) = true := by
  decide

theorem floatWord_digits (hrun : ∀ c ∈ run, isFloatChar c = true)
    (hs : suffix ∈ [] :: floatSuffixes wide) :
    floatWord wide floatWords (run ++ suffix) = some (none, run ++ suffix) := by
  apply floatWord_other
  intro w hw
  obtain ⟨c, hc, hmark⟩ := List.any_eq_true.mp (floatWords_marked w hw)
  obtain ⟨hno, hsuffix⟩ : isFloatChar c = false ∧ c ∉ ['f', '3', '2', '6', '4'] := by
    simpa using hmark
  apply isPrefixOf_eq_false hc
  rw [List.mem_append, not_or]
  exact ⟨fun h => Bool.false_ne_true (hno.symm.trans (hrun c h)),
    fun h => hsuffix ((floatSuffix_chars hs).2 c h)⟩

theorem floatSuffix_whole (hs : suffix ∈ [] :: floatSuffixes wide) :
    floatSuffix (floatSuffixes wide) suffix = some ((), []) := by
  cases wide <;> simp only [floatSuffixes, Bool.false_eq_true, if_false, if_true, List.mem_cons,
    List.not_mem_nil, or_false] at hs <;> rcases hs with rfl | rfl | rfl <;> rfl

theorem floatWord_whole {word : List Char} {bits : UInt32} (hw : (word, bits) ∈ floatWords)
    (hs : suffix ∈ [] :: floatSuffixes wide) :
    floatWord wide floatWords (word ++ suffix) = some (some (.ofBits bits), []) := by
  simp only [floatWords, List.mem_cons, Prod.mk.injEq, List.not_mem_nil, or_false] at hw
  cases wide <;> simp only [floatSuffixes, Bool.false_eq_true, if_false, if_true, List.mem_cons,
    List.not_mem_nil, or_false] at hs <;> rcases hs with rfl | rfl | rfl <;>
    rcases hw with ⟨rfl, rfl⟩ | ⟨rfl, rfl⟩ | ⟨rfl, rfl⟩ | ⟨rfl, rfl⟩ | ⟨rfl, rfl⟩ | ⟨rfl, rfl⟩ <;>
    rfl

theorem float_whole (h : FloatText wide x text) : float wide text = some (x, []) := by
  cases h with
  | word hw hs =>
    rw [float, bind_some (floatWord_whole hw hs)]
    rfl
  | digits hrun hhead hunder hd hs =>
    rw [float, bind_some (floatWord_digits hrun hs)]
    show (do let run ← takeWhile isFloatChar; _ : Reader Float32) _ = _
    rw [bind_some (takeWhile_floatSuffix hrun hs), if_neg (by simp [hhead, hunder]), hd]
    exact bind_some (floatSuffix_whole hs) _

/-! Numbers of any type -/

theorem base_other (hb : 'b' ∉ text) (ho : 'o' ∉ text) (hx : 'x' ∉ text) :
    base text = some (10, text) := by
  rw [base, bind_some (accept_other (isPrefixOf_eq_false (d := 'b') (by simp) hb))]
  simp only [Bool.false_eq_true, if_false]
  rw [bind_some (accept_other (isPrefixOf_eq_false (d := 'o') (by simp) ho))]
  simp only [Bool.false_eq_true, if_false]
  rw [bind_some (accept_other (isPrefixOf_eq_false (d := 'x') (by simp) hx))]
  rfl

theorem minus_sign {sign : List Char} (hs : sign ∈ [[], ['+'], ['-']])
    (hplus : text.head? ≠ some '+') (hminus : text.head? ≠ some '-') :
    minus (sign ++ text) = some (decide (sign = ['-']), text) := by
  have hno : ∀ c, text.head? ≠ some c → [c].isPrefixOf text = false := by
    intro c hc
    cases text with
    | nil => rfl
    | cons d text =>
      have hne : c ≠ d := by
        rintro rfl
        exact hc rfl
      simp [List.isPrefixOf, hne]
  simp only [List.mem_cons, List.not_mem_nil, or_false] at hs
  rcases hs with rfl | rfl | rfl
  · rw [List.nil_append, minus, bind_some (accept_other (hno '-' hminus))]
    simp only [Bool.false_eq_true, if_false]
    rw [bind_some (accept_other (hno '+' hplus))]
    rfl
  · rw [List.singleton_append, minus, bind_some (accept_other rfl)]
    simp only [Bool.false_eq_true, if_false]
    rw [bind_some (accept_head '+' text)]
    rfl
  · rw [List.singleton_append, minus, bind_some (accept_head '-' text)]
    rfl

end Reader

/-- Digits that have a value in a base are digits of that base. -/
theorem hexDigit?_of_ofDigits {ds : List Char} (h : ofDigits b ds n = some m) :
    ∀ d ∈ ds, ∃ k, hexDigit? d = some k ∧ k < b := by
  induction ds generalizing n with
  | nil => simp
  | cons d ds ih =>
    cases hd : hexDigit? d with
    | none => simp [ofDigits, hd] at h
    | some k =>
      simp only [ofDigits, hd] at h
      split at h
      · next hk =>
        intro e he
        rcases List.mem_cons.mp he with rfl | he
        · exact ⟨k, hd, hk⟩
        · exact ih h e he
      · cases h

theorem toNat_le_of_le {d : Char} (h : c ≤ d) : c.toNat ≤ d.toNat := by
  simpa [Char.le_def, UInt32.le_iff_toNat_le] using h

/-- A digit below ten is written as such, not as a letter. -/
theorem isDigit_of_hexDigit? {k : Nat} (h : hexDigit? c = some k) (hk : k < 10) :
    c.isDigit = true := by
  simp only [hexDigit?] at h
  split at h
  · next hc => exact Char.isDigit_iff_toNat.mpr ⟨toNat_le_of_le hc.1, toNat_le_of_le hc.2⟩
  · have hbig : ∀ low : Char, ∀ k', low ≤ c → c.toNat - k' = k → ¬ low.toNat - k' < 10 → False := by
      intro low k' hlow hval hno
      have := toNat_le_of_le hlow
      omega
    split at h
    · next hc => exact (hbig 'a' 87 hc.1 (Option.some.inj h) (by decide)).elim
    · split at h
      · next hc => exact (hbig 'A' 55 hc.1 (Option.some.inj h) (by decide)).elim
      · cases h

/-- The characters of a whole number to base ten. -/
theorem decimal_chars (h : ofDigits 10 (run.filter (· ≠ '_')) n = some m) :
    ∀ c ∈ run, c = '_' ∨ c.isDigit = true := by
  intro c hc
  by_cases hu : c = '_'
  · exact .inl hu
  · obtain ⟨k, hk, hlt⟩ := hexDigit?_of_ofDigits h c (by simp [hc, hu])
    exact .inr (isDigit_of_hexDigit? hk hlt)

theorem isFloatChar_decimal (h : c = '_' ∨ c.isDigit = true) : isFloatChar c = true := by
  rcases h with rfl | h
  · decide
  · simp [isFloatChar, h]

/-- The letters that mark a base, and the one that begins a suffix, are no digits. -/
theorem not_mem_decimal {d : Char} (h : ∀ c ∈ text, c = '_' ∨ c.isDigit = true)
    (hd : d.isDigit = false) (hu : d ≠ '_') : d ∉ text := by
  intro hmem
  rcases h d hmem with rfl | h
  · exact hu rfl
  · exact Bool.false_ne_true (hd.symm.trans h)

/-- A suffix of a whole number begins with the letter that says whether there is a sign. -/
theorem integerSuffix_chars {down up : Nat} (h : (suffix, down, up) ∈ integerSuffixes) :
    (∀ d ∈ suffix.head?, isIntChar d = false) ∧ (∀ d ∈ suffix.head?, isFloatChar d = false) ∧
      ∀ d ∈ suffix, d ∉ ['b', 'o', 'x'] := by
  have hall : ∀ t ∈ integerSuffixes, t.1.head?.any isIntChar = false ∧
      t.1.head?.any isFloatChar = false ∧ t.1.any ['b', 'o', 'x'].contains = false := by
    decide
  obtain ⟨hint, hfloat, hmark⟩ := hall _ h
  refine ⟨fun d hd => ?_, fun d hd => ?_, fun d hd hmem => ?_⟩
  · rwa [Option.mem_def.mp hd] at hint
  · rwa [Option.mem_def.mp hd] at hfloat
  · exact List.any_eq_false.mp hmark d hd (List.contains_iff_mem.mpr hmem)

namespace Reader

theorem firstKeyword_whole {t : List Char × Nat × Nat} (h : t ∈ integerTypes) :
    firstKeyword integerTypes t.1 = some (some t, []) := by
  have hall : (integerTypes.all fun t =>
      decide (firstKeyword integerTypes t.1 = some (some t, []))) = true := by
    decide +kernel
  exact of_decide_eq_true (List.all_eq_true.mp hall t h)

/-- The mark of a base is taken for what it is. Without a mark the digits are to base ten, and none
of them is the letter of a mark. -/
theorem base_mark {mark : List Char} {base n down up : Nat} (hm : (mark, base) ∈ bases)
    (hn : ofDigits base (run.filter (· ≠ '_')) 0 = some n)
    (hs : (suffix, down, up) ∈ integerSuffixes) :
    Reader.base (mark ++ (run ++ suffix)) = some (base, run ++ suffix) := by
  simp only [bases, List.mem_cons, Prod.mk.injEq, List.not_mem_nil, or_false] at hm
  rcases hm with ⟨rfl, rfl⟩ | ⟨rfl, rfl⟩ | ⟨rfl, rfl⟩ | ⟨rfl, rfl⟩
  · have hrun := decimal_chars hn
    have hno : ∀ d ∈ ['b', 'o', 'x'], d.isDigit = false → d ≠ '_' → d ∉ run ++ suffix := by
      intro d hd hdigit hu
      rw [List.mem_append, not_or]
      exact ⟨not_mem_decimal hrun hdigit hu, fun h => (integerSuffix_chars hs).2.2 d h hd⟩
    exact base_other (hno 'b' (by simp) (by decide) (by decide))
      (hno 'o' (by simp) (by decide) (by decide)) (hno 'x' (by simp) (by decide) (by decide))
  · rw [Reader.base, bind_some (accept_append ['0', 'b'] _)]
    rfl
  · rw [Reader.base, List.cons_append, List.cons_append, bind_some (accept_other rfl)]
    simp only [Bool.false_eq_true, if_false]
    rw [← List.cons_append, ← List.cons_append, bind_some (accept_append ['0', 'o'] _)]
    rfl
  · rw [Reader.base, List.cons_append, List.cons_append, bind_some (accept_other rfl)]
    simp only [Bool.false_eq_true, if_false]
    rw [bind_some (accept_other rfl)]
    simp only [Bool.false_eq_true, if_false]
    rw [← List.cons_append, ← List.cons_append, bind_some (accept_append ['0', 'x'] _)]
    rfl

theorem natural_whole {mark : List Char} {base n down up : Nat} (hm : (mark, base) ∈ bases)
    (hne : run ≠ []) (hhead : run.head? ≠ some '_') (hrun : ∀ c ∈ run, isIntChar c = true)
    (hn : ofDigits base (run.filter (· ≠ '_')) 0 = some n)
    (hs : (suffix, down, up) ∈ integerSuffixes) :
    natural (mark ++ (run ++ suffix)) = some (n, suffix) := by
  have hahead : ahead ['_'] (run ++ suffix) = some (false, run ++ suffix) := by
    obtain ⟨d, run, rfl⟩ := List.exists_cons_of_ne_nil hne
    refine ahead_other ?_
    rintro rfl
    exact hhead rfl
  have htake := takeWhile_suffix hrun (integerSuffix_chars hs).1
  rw [natural, bind_some (base_mark hm hn hs), bind_some hahead]
  simp only [Bool.false_eq_true, if_false]
  rw [bind_some htake, if_neg (by simp [hne]), hn]
  rfl

/-- A whole number begins with a digit, behind its sign. -/
theorem whole_head {mark : List Char} {base : Nat} (hm : (mark, base) ∈ bases) (hne : run ≠ [])
    (hrun : ∀ c ∈ run, isIntChar c = true) (hc : isIntChar c = false) :
    (mark ++ (run ++ suffix)).head? ≠ some c := by
  intro h
  have hdigit : isIntChar c = true := by
    simp only [bases, List.mem_cons, Prod.mk.injEq, List.not_mem_nil, or_false] at hm
    rcases hm with ⟨rfl, rfl⟩ | ⟨rfl, rfl⟩ | ⟨rfl, rfl⟩ | ⟨rfl, rfl⟩
    · obtain ⟨d, run, rfl⟩ := List.exists_cons_of_ne_nil hne
      obtain rfl : d = c := by simpa using h
      exact hrun d (by simp)
    all_goals
      obtain rfl : '0' = c := by simpa using h
      decide
  exact Bool.false_ne_true (hc.symm.trans hdigit)

theorem integer_whole {sign mark : List Char} {base n down up : Nat}
    (hsign : sign ∈ [[], ['+'], ['-']]) (hm : (mark, base) ∈ bases)
    (hne : run ≠ []) (hhead : run.head? ≠ some '_') (hrun : ∀ c ∈ run, isIntChar c = true)
    (hn : ofDigits base (run.filter (· ≠ '_')) 0 = some n)
    (hs : (suffix, down, up) ∈ integerSuffixes) (hle : n ≤ if sign = ['-'] then down else up) :
    ∃ i, integer integerTypes (Decimal.pow2 127) (Decimal.pow2 128 - 1)
      (sign ++ (mark ++ (run ++ suffix))) = some (i, []) := by
  have hminus : minus (sign ++ (mark ++ (run ++ suffix))) =
      some (decide (sign = ['-']), mark ++ (run ++ suffix)) :=
    minus_sign hsign (whole_head hm hne hrun (by decide)) (whole_head hm hne hrun (by decide))
  have hnatural := natural_whole hm hne hhead hrun hn hs
  have hbounds : ∃ t, firstKeyword integerTypes suffix = some (t, []) ∧
      (t.map (·.2)).getD (Decimal.pow2 127, Decimal.pow2 128 - 1) = (down, up) := by
    rcases List.mem_cons.mp hs with h | h
    · cases h
      exact ⟨none, rfl, rfl⟩
    · exact ⟨_, firstKeyword_whole h, rfl⟩
  obtain ⟨t, ht, hbounds⟩ := hbounds
  rw [integer, bind_some hminus, bind_some hnatural, bind_apply, bind_some ht]
  cases t with
  | none =>
    simp only [Option.map_none, Option.getD_none] at hbounds
    by_cases hneg : sign = ['-'] <;> simp_all
  | some t =>
    simp only [Option.map_some, Option.getD_some] at hbounds
    by_cases hneg : sign = ['-'] <;> simp_all

def unsigned (cs : List Char) : List Char :=
  if cs.head? = some '+' ∨ cs.head? = some '-' then cs.tail else cs

theorem unsigned_append {sign : List Char} (hs : sign ∈ [[], ['+'], ['-']])
    (hplus : text.head? ≠ some '+') (hminus : text.head? ≠ some '-') :
    unsigned (sign ++ text) = text := by
  simp only [List.mem_cons, List.not_mem_nil, or_false] at hs
  rcases hs with rfl | rfl | rfl
  · simp [unsigned, hplus, hminus]
  · rfl
  · rfl

/-- A text either has no sign, or it is a sign and what stands behind it. -/
theorem exists_sign (cs : List Char) : ∃ sign ∈ [[], ['+'], ['-']], cs = sign ++ unsigned cs := by
  by_cases hplus : cs.head? = some '+'
  · obtain ⟨rest, rfl⟩ : ∃ rest, cs = '+' :: rest := by
      cases cs <;> simp_all
    exact ⟨['+'], by simp, rfl⟩
  · by_cases hminus : cs.head? = some '-'
    · obtain ⟨rest, rfl⟩ : ∃ rest, cs = '-' :: rest := by
        cases cs <;> simp_all
      exact ⟨['-'], by simp, rfl⟩
    · exact ⟨[], by simp, by simp [unsigned, hplus, hminus]⟩

theorem anyNumber_integer {cs : List Char} {r : Int × List Char}
    (hlong : ¬ ((unsigned cs).takeWhile isIntChar).length <
      ((unsigned cs).takeWhile isFloatChar).length)
    (hr : integer integerTypes (Decimal.pow2 127) (Decimal.pow2 128 - 1) cs = some r) :
    anyNumber cs = some ((), r.2) := by
  simp only [unsigned] at hlong
  simp only [anyNumber, if_neg hlong, hr]

/-- A decimal is read as such if it is too long for a whole number, or refused as one. -/
theorem anyNumber_float {cs : List Char} (hx : float true cs = some (x, []))
    (hbase : Reader.base (unsigned cs) = some (10, unsigned cs))
    (hint : ∀ r, ¬ ((unsigned cs).takeWhile isIntChar).length <
        ((unsigned cs).takeWhile isFloatChar).length →
      integer integerTypes (Decimal.pow2 127) (Decimal.pow2 128 - 1) cs = some r → r.2 = []) :
    anyNumber cs = some ((), []) := by
  by_cases hlong : ((unsigned cs).takeWhile isIntChar).length <
      ((unsigned cs).takeWhile isFloatChar).length
  · simp only [unsigned] at hlong
    simp only [anyNumber, if_pos hlong, hx]
    rfl
  · cases hr : integer integerTypes (Decimal.pow2 127) (Decimal.pow2 128 - 1) cs with
    | some r => rw [anyNumber_integer hlong hr, hint r hlong hr]
    | none =>
      simp only [unsigned] at hlong hbase
      simp only [anyNumber, if_neg hlong, hr, hbase, hx]
      rfl

/-- A whole number is never shorter than the decimal that could be read in its place. -/
theorem whole_not_shorter {mark : List Char} {base n down up : Nat} (hm : (mark, base) ∈ bases)
    (hrun : ∀ c ∈ run, isIntChar c = true) (hn : ofDigits base (run.filter (· ≠ '_')) 0 = some n)
    (hs : (suffix, down, up) ∈ integerSuffixes) :
    ¬ ((mark ++ (run ++ suffix)).takeWhile isIntChar).length <
      ((mark ++ (run ++ suffix)).takeWhile isFloatChar).length := by
  simp only [bases, List.mem_cons, Prod.mk.injEq, List.not_mem_nil, or_false] at hm
  rcases hm with ⟨rfl, rfl⟩ | ⟨rfl, rfl⟩ | ⟨rfl, rfl⟩ | ⟨rfl, rfl⟩
  · have hint := takeWhile_suffix hrun (integerSuffix_chars hs).1
    have hfloat := takeWhile_suffix (fun c hc => isFloatChar_decimal (decimal_chars hn c hc))
      (integerSuffix_chars hs).2.1
    simp only [Reader.takeWhile, Option.some.injEq, Prod.mk.injEq] at hint hfloat
    simp [hint.1, hfloat.1]
  all_goals
    have hzero : isIntChar '0' = true := by decide
    have hmark : isFloatChar 'b' = false ∧ isFloatChar 'o' = false ∧ isFloatChar 'x' = false := by
      decide
    simp [List.takeWhile_cons, hzero, hmark]
    split <;> simp

/-- A whole number to base ten takes digits as far as there are any, letters among them. -/
theorem natural_decimal {left : List Char} (hbase : Reader.base text = some (10, text))
    (h : natural text = some (n, left)) :
    text.takeWhile isIntChar ++ left = text ∧
      (∀ c ∈ text.takeWhile isIntChar, c = '_' ∨ c.isDigit = true) ∧
      ∀ d ∈ left.head?, isIntChar d = false := by
  rw [natural, bind_some hbase] at h
  cases hahead : ['_'].isPrefixOf text with
  | true => simp [bind_apply, ahead, hahead, refuse] at h
  | false =>
    simp only [bind_apply, ahead, hahead, Option.bind_some, Bool.false_eq_true, if_false,
      Reader.takeWhile] at h
    split at h
    · cases h
    · cases hk : ofDigits 10 ((text.takeWhile isIntChar).filter (· ≠ '_')) 0 with
      | none =>
        rw [hk] at h
        cases h
      | some k =>
        rw [hk] at h
        obtain ⟨-, rfl⟩ : k = n ∧ text.dropWhile isIntChar = left := by simpa using h
        refine ⟨List.takeWhile_append_dropWhile, decimal_chars hk, fun d hd => ?_⟩
        have := List.head?_dropWhile_not isIntChar text
        rw [Option.mem_def.mp hd] at this
        simpa using this

/-- If a decimal can be read as a whole number too, then as one that takes all of it: a suffix for
single precision begins with a letter that would be a digit. -/
theorem integer_decimal {types : List (List Char × Nat × Nat)} {down up : Nat} {r : Int × List Char}
    {sign : List Char} (hsign : sign ∈ [[], ['+'], ['-']])
    (hplus : (run ++ suffix).head? ≠ some '+') (hminus : (run ++ suffix).head? ≠ some '-')
    (hs : suffix ∈ [] :: floatSuffixes wide)
    (hbase : Reader.base (run ++ suffix) = some (10, run ++ suffix))
    (hlong : ¬ ((run ++ suffix).takeWhile isIntChar).length < run.length)
    (hnil : firstKeyword types [] = some (none, []))
    (hr : integer types down up (sign ++ (run ++ suffix)) = some r) : r.2 = [] := by
  rw [integer, bind_some (minus_sign hsign hplus hminus)] at hr
  cases hn : natural (run ++ suffix) with
  | none =>
    rw [bind_apply, hn] at hr
    cases hr
  | some p =>
    obtain ⟨n, left⟩ := p
    obtain ⟨happ, hdigits, hstop⟩ := natural_decimal hbase hn
    generalize (run ++ suffix).takeWhile isIntChar = digits at happ hdigits hlong
    obtain ⟨more, rfl, hmore⟩ : ∃ more, digits = run ++ more ∧ suffix = more ++ left := by
      rcases List.append_eq_append_iff.mp happ with ⟨m, hm, hs⟩ | ⟨m, hm, hs⟩
      · have hlen := congrArg List.length hm
        rw [List.length_append] at hlen
        obtain rfl : m = [] := List.eq_nil_of_length_eq_zero (by omega)
        exact ⟨[], by simpa using hm.symm, by simpa using hs.symm⟩
      · exact ⟨m, hm, hs⟩
    have hf := (floatSuffix_chars hs).1
    -- The letter would be among the digits, or else right behind them.
    have hleft : left = [] := by
      cases more with
      | nil =>
        cases left with
        | nil => rfl
        | cons d left =>
          obtain rfl := hf d (by simp [hmore])
          exact absurd (hstop 'f' rfl) (by decide)
      | cons d more =>
        obtain rfl := hf d (by simp [hmore])
        exact absurd (hdigits 'f' (by simp)) (by decide)
    subst hleft
    rw [bind_some hn, bind_apply, bind_some hnil] at hr
    simp only [pure_apply, Option.bind_some] at hr
    split at hr <;> split at hr
    all_goals cases hr
    all_goals rfl

/-- A decimal has one sign at most. -/
theorem unsigned_head {d : Scientific} (hd : Scientific.ofChars? (text.filter (· ≠ '_')) = some d)
    (hc : c = '+' ∨ c = '-') : (unsigned text).head? ≠ some c := by
  intro h
  obtain ⟨rest, hrest⟩ : ∃ rest, unsigned text = c :: rest := by
    cases hu : unsigned text with
    | nil => simp [hu] at h
    | cons e rest => exact ⟨rest, by simp_all⟩
  obtain ⟨sign, hsign, htext⟩ := exists_sign text
  rw [hrest] at htext
  simp only [List.mem_cons, List.not_mem_nil, or_false] at hsign
  rcases hsign with rfl | rfl | rfl
  · rcases hc with rfl | rfl <;> simp [htext, unsigned] at hrest
  all_goals rcases hc with rfl | rfl <;> simp [htext, Scientific.ofChars?] at hd

theorem anyNumber_digits {d : Scientific} (hrun : ∀ c ∈ run, isFloatChar c = true)
    (hhead : run.head? ≠ some '_') (hunder : underscoresOk false run = true)
    (hd : Scientific.ofChars? (run.filter (· ≠ '_')) = some d)
    (hs : suffix ∈ [] :: floatSuffixes true) : anyNumber (run ++ suffix) = some ((), []) := by
  have hx := float_whole (.digits hrun hhead hunder hd hs)
  obtain ⟨hf, hchars⟩ := floatSuffix_chars hs
  have hheads (c : Char) (hc : c = '+' ∨ c = '-') : (unsigned run ++ suffix).head? ≠ some c := by
    cases hu : unsigned run with
    | nil =>
      intro h
      obtain rfl := hf c h
      simp at hc
    | cons e rest => simpa [hu] using unsigned_head hd hc
  obtain ⟨sign, hsign, hrest⟩ := exists_sign run
  have happ : run ++ suffix = sign ++ (unsigned run ++ suffix) := by
    rw [← List.append_assoc, ← hrest]
  have hbody : unsigned (run ++ suffix) = unsigned run ++ suffix := by
    rw [happ]
    exact unsigned_append hsign (hheads '+' (.inl rfl)) (hheads '-' (.inr rfl))
  have hmem : ∀ c ∈ unsigned run, isFloatChar c = true := by
    intro c hc
    exact hrun c (hrest ▸ List.mem_append_right sign hc)
  have hno (mark : Char) (hm : isFloatChar mark = false)
      (hm' : mark ∉ ['f', '3', '2', '6', '4']) : mark ∉ unsigned run ++ suffix := by
    rw [List.mem_append, not_or]
    exact ⟨fun h => Bool.false_ne_true (hm.symm.trans (hmem mark h)), fun h => hm' (hchars mark h)⟩
  have hbase : Reader.base (unsigned run ++ suffix) = some (10, unsigned run ++ suffix) :=
    base_other (hno 'b' (by decide) (by decide)) (hno 'o' (by decide) (by decide))
      (hno 'x' (by decide) (by decide))
  have hfloats := takeWhile_floatSuffix hmem hs
  simp only [Reader.takeWhile, Option.some.injEq, Prod.mk.injEq] at hfloats
  refine anyNumber_float hx (by rw [hbody, hbase]) fun r hlong hr => ?_
  rw [hbody, hfloats.1] at hlong
  rw [happ] at hr
  exact integer_decimal hsign (hheads '+' (.inl rfl)) (hheads '-' (.inr rfl)) hs hbase hlong rfl hr

theorem anyNumber_word {word : List Char} {bits : UInt32} (hw : (word, bits) ∈ floatWords)
    (hs : suffix ∈ [] :: floatSuffixes true)
    (hopen : (word ++ suffix).head?.all opensNumber = true) :
    anyNumber (word ++ suffix) = some ((), []) := by
  have hall : ∀ w ∈ floatWords, ∀ s ∈ [] :: floatSuffixes true,
      (w.1 ++ s).head?.all opensNumber = true → anyNumber (w.1 ++ s) = some ((), []) := by
    decide +kernel
  exact hall _ hw _ hs hopen

theorem anyNumber_whole (h : Number text) : anyNumber text = some ((), []) := by
  cases h with
  | whole hsign hm hne hhead hrun hn hs hle =>
    obtain ⟨i, hi⟩ := integer_whole hsign hm hne hhead hrun hn hs hle
    refine anyNumber_integer ?_ hi
    rw [unsigned_append hsign (whole_head hm hne hrun (by decide))
      (whole_head hm hne hrun (by decide))]
    exact whole_not_shorter hm hrun hn hs
  | decimal hx hc =>
    generalize htext : (_ :: _ : List Char) = t at hx
    cases hx with
    | word hw hs =>
      refine anyNumber_word hw hs ?_
      rw [← htext]
      exact hc
    | digits hrun hhead hunder hd hs => exact anyNumber_digits hrun hhead hunder hd hs

end Reader

end Sequencer.Text
