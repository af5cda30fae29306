import Sequencer.Proofs.Decimal.Written
import Sequencer.Proofs.Text.Documents
import Sequencer.Settings

/-!
# Settings are read back

A text gives some of the settings, in any order and among any other fields. Those it gives are read,
and those it leaves out keep their defaults. What is written for settings is such a text, so nothing
is lost on the way through it.
-/

set_option autoImplicit false

namespace Sequencer.Settings

open Text Text.Reader

inductive OptionText (e : Extensions) : Option Float32 → List Char → Prop
  | none : OptionText e none "None".toList
  | some {x : Float32} {comma : Bool} {b b' b'' value : List Char} : Blank b → Blank b' →
      FloatText false x value → Comma comma b'' →
      OptionText e (some x) ("Some".toList ++ (b ++ '(' :: (b' ++ (value ++ (b'' ++ [')'])))))
  | implicit {x : Float32} {value : List Char} : e.implicitSome = true → FloatText false x value →
      OptionText e (some x) value

/-- Fields, given in turn, take what is known of the settings from one draft to another. A setting
is given once, and the value of any other field nests no deeper than `n`. -/
inductive Gives (e : Extensions) (n : Nat) : Draft → List Entry → Draft → Prop
  | nil {p : Draft} : Gives e n p [] p
  | traceSteps {p q : Draft} {b : Bool} {entry : Entry} {entries : List Entry} :
      Name traceStepsName entry.key → entry.Spaced → p.traceSteps = none →
      entry.value = renderBool b → Gives e n { p with traceSteps := some b } entries q →
      Gives e n p (entry :: entries) q
  | barrierWarnAfter {p q : Draft} {o : Option Float32} {entry : Entry} {entries : List Entry} :
      Name barrierWarnAfterName entry.key → entry.Spaced → p.barrierWarnAfter = none →
      OptionText e o entry.value → Gives e n { p with barrierWarnAfter := some o } entries q →
      Gives e n p (entry :: entries) q
  | unknown {p q : Draft} {word : List Char} {entry : Entry} {entries : List Entry} :
      Name word entry.key → entry.Spaced → word ≠ traceStepsName → word ≠ barrierWarnAfterName →
      Value n entry.value → Gives e n p entries q → Gives e n p (entry :: entries) q

/-- A text that gives the settings of a draft, among other fields whose values nest no deeper than
`n`. -/
def Written (n : Nat) (p : Draft) (text : List Char) : Prop :=
  ∃ e entries, Document typeName e entries text ∧ Gives e n {} entries p

variable {e : Extensions} {n : Nat} {p q : Draft} {o : Option Float32} {x : Float32}
  {text value : List Char} {entries : List Entry}

/-! Values -/

theorem renderBool_opens (b : Bool) : Opens (renderBool b) := by
  cases b
  · exact ⟨_, _, rfl, by decide⟩
  · exact ⟨_, _, rfl, by decide⟩

theorem delimited_bool : Delimited Reader.bool := by
  refine (delimited_keyword (by decide)).bind fun yes => ?_
  cases yes with
  | true => exact delimited_pure _
  | false =>
    refine (delimited_keyword (by decide)).bind fun no => ?_
    cases no with
    | true => exact delimited_pure _
    | false => exact delimited_refuse

theorem takes_bool (b : Bool) : Takes Reader.bool b (renderBool b) := by
  refine delimited_bool.takes ?_
  cases b <;> decide

/-- A number opens like an item, and holds no letter of the words for options. -/
theorem floatText_chars (h : FloatText false x value) : Opens value ∧ 'o' ∉ value := by
  cases h with
  | @word word suffix bits hw hs =>
    have hall : ∀ w ∈ floatWords, ∀ s ∈ [] :: floatSuffixes false,
        (w.1 ++ s).head?.any opensItem = true ∧ 'o' ∉ w.1 ++ s := by
      decide
    obtain ⟨hhead, hno⟩ := hall _ hw _ hs
    refine ⟨?_, hno⟩
    change (word ++ suffix).head?.any opensItem = true at hhead
    cases htext : word ++ suffix with
    | nil =>
      rw [htext] at hhead
      cases hhead
    | cons c text =>
      rw [htext] at hhead
      exact ⟨c, text, rfl, hhead⟩
  | @digits run suffix d hrun hhead hunder hd hs =>
    have hno : isFloatChar 'o' = false := by decide
    obtain ⟨c, run, rfl⟩ : ∃ c rest, run = c :: rest := by
      apply List.exists_cons_of_ne_nil
      rintro rfl
      simp [Scientific.ofChars?] at hd
    refine ⟨⟨c, _, rfl, ?_⟩, fun hmem => ?_⟩
    · have hc := hrun c (by simp)
      simp only [isFloatChar, Bool.or_eq_true, decide_eq_true_eq] at hc
      rcases hc with (((((hc | rfl) | rfl) | rfl) | rfl) | rfl) | rfl
      · exact opensItem_of_opensNumber (by simp [opensNumber, hc])
      all_goals decide
    · rcases List.mem_append.mp hmem with hmem | hmem
      · exact Bool.false_ne_true (hno.symm.trans (hrun 'o' hmem))
      · exact absurd ((floatSuffix_chars hs).2 'o' hmem) (by decide)

theorem takes_float (h : FloatText false x value) : Takes (float false) x value :=
  (delimited_float false).takes (float_whole h)

theorem optionText_opens (h : OptionText e o value) : Opens value := by
  cases h with
  | none => exact ⟨_, _, rfl, by decide⟩
  | some _ _ _ _ => exact name_some.opens _
  | implicit _ hx => exact (floatText_chars hx).1

theorem takes_optionText (h : OptionText e o value) : Takes (option e (float false)) o value := by
  cases h with
  | none =>
    rintro _ ⟨hb, hc⟩
    have hkey : keyword "None".toList "None".toList = some (true, []) := by decide
    have hnone := (delimited_keyword (show isUndelimited "None".toList = true by decide)).before
      hkey hb (isDelimiter_of_closes hc)
    refine ⟨_, ?_, rfl⟩
    rw [option, bind_some (hnone _)]
    rfl
  | some hb hb' hx hb'' =>
    refine takes_of_append fun tail => ?_
    simpa using takes_option hb hb' (takes_float hx) (floatText_chars hx).1 hb'' tail
  | @implicit x _ he hx =>
    rintro _ ⟨hb, hc⟩
    rename_i b rest c
    have hdel := isDelimiter_of_closes hc
    have hno : ∀ word : List Char, 'o' ∈ word → isUndelimited word = true →
        keyword word (value ++ (b ++ c :: rest)) = some (false, value ++ (b ++ c :: rest)) := by
      intro word ho hw
      have hkey : keyword word value = some (false, value) := by
        simp [keyword, isPrefixOf_eq_false ho (floatText_chars hx).2]
      rw [(delimited_keyword hw).blank value hb hdel, hkey]
      rfl
    obtain ⟨left, hl, hleft⟩ := takes_float hx _ (.mk hb hc)
    refine ⟨left, ?_, hleft⟩
    rw [option, bind_some (hno "None".toList (by decide) (by decide))]
    simp only [Bool.false_eq_true, if_false]
    rw [bind_apply, bind_some (hno "Some".toList (by decide) (by decide))]
    simp only [Bool.false_eq_true, if_false]
    show (if e.implicitSome then some <$> float false else refuse : Reader _) _ = _
    rw [if_pos he]
    exact bind_some hl fun x => pure (some x)

/-! Fields -/

theorem field_traceSteps (h : p.traceSteps = none) : field e traceStepsName p =
    some (do return { p with traceSteps := some (← Reader.bool) }) := by
  simp [field, h]

theorem field_barrierWarnAfter (h : p.barrierWarnAfter = none) : field e barrierWarnAfterName p =
    some (do return { p with barrierWarnAfter := some (← option e (float false)) }) := by
  have hne : barrierWarnAfterName ≠ traceStepsName := by decide
  simp [field, h, hne]

theorem Gives.fills (h : Gives e n p entries q) : Fills n (field e) p entries q := by
  induction h with
  | nil => exact .nil
  | @traceSteps p q b entry entries hn hs hnew hv _ ih =>
    exact .known hn hs (field_traceSteps hnew) (hv ▸ renderBool_opens b)
      (hv ▸ (takes_bool b).map fun b => { p with traceSteps := some b }) ih
  | @barrierWarnAfter p q o entry entries hn hs hnew hv _ ih =>
    exact .known hn hs (field_barrierWarnAfter hnew) (optionText_opens hv)
      ((takes_optionText hv).map fun o => { p with barrierWarnAfter := some o }) ih
  | unknown hn hs htrace hwarn hv _ ih =>
    exact .unknown hn hs (by rw [field, if_neg htrace, if_neg hwarn]) hv ih

theorem Written.reads (h : Written (nestingBudget - 2) p text) :
    ofChars? text = some p.complete := by
  obtain ⟨e, entries, hd, hg⟩ := h
  rw [ofChars?, hd.reads hg.fills]
  rfl

/-! What is written -/

theorem settingNames :
    ∀ word ∈ [typeName, traceStepsName, barrierWarnAfterName], Name word word := by
  have hall : [typeName, traceStepsName, barrierWarnAfterName].all isWord = true := by
    decide +kernel
  exact fun word h => name_word (List.all_eq_true.mp hall word h)

theorem renderOption_some (x : Float32) : renderOption (some x) =
    "Some".toList ++ ([] ++ '(' :: ([] ++ (Decimal.text x ++ ([] ++ [')'])))) := rfl

theorem renderField_eq (name value : List Char) : renderField name value =
    [' ', ' ', ' ', ' '] ++ name ++ [':', ' '] ++ value ++ [',', '\n'] := rfl

theorem optionText_renderOption (e : Extensions) (o : Option Float32) :
    OptionText e o (renderOption o) := by
  cases o with
  | none => exact .none
  | some x =>
    have h := OptionText.some (e := e) .nil .nil (Decimal.text_floatText x) (.none .nil)
    rwa [← renderOption_some] at h

/-- The fields stand on lines of their own, each behind its indentation. -/
theorem renderChars_written (n : Nat) (s : Settings) :
    Written n ⟨some s.traceSteps, some s.barrierWarnAfter⟩ s.renderChars := by
  have hspace : Blank [' '] := .white (by decide) .nil
  have hline : Blank ['\n'] := .white (by decide) .nil
  have hindent : Blank ['\n', ' ', ' ', ' ', ' '] :=
    .white (by decide) (.white (by decide) (.white (by decide) (.white (by decide) hspace)))
  let steps : Entry := ⟨traceStepsName, [], [' '], renderBool s.traceSteps⟩
  let warn : Entry := ⟨barrierWarnAfterName, [], [' '], renderOption s.barrierWarnAfter⟩
  have htitle : RecordName {} typeName (typeName ++ []) := .name (settingNames _ (by simp)) .nil
  have hbody : Items [steps.text, warn.text]
      (['\n', ' ', ' ', ' ', ' '] ++ (steps.text ++ ([] ++ ',' ::
        (['\n', ' ', ' ', ' ', ' '] ++ (warn.text ++ ([] ++ ',' :: ['\n'])))))) :=
    .cons hindent .nil (.cons hindent .nil (.nil hline))
  have hdocument : Document typeName {} [steps, warn] s.renderChars := by
    have h : Document typeName {} [steps, warn] _ := .mk .nil .nil htitle hbody (.blank .nil)
    simpa [renderChars, renderField_eq, Entry.text, steps, warn] using h
  exact ⟨{}, [steps, warn], hdocument,
    .traceSteps (settingNames _ (by simp)) ⟨.nil, hspace⟩ rfl rfl
      (.barrierWarnAfter (settingNames _ (by simp)) ⟨.nil, hspace⟩ rfl
        (optionText_renderOption {} _) .nil)⟩

/-- What is written for any settings is read as these, and any text that gives some of the settings
is read as these with the defaults for the rest: whatever the order of the fields, and whatever the
others hold as long as it nests within the budget. -/
theorem parse_written : (∀ s : Settings, parse s.render = .ok s) ∧
    ∀ (p : Draft) (text : String), Written (nestingBudget - 2) p text.toList →
      parse text = .ok p.complete := by
  have hparse : ∀ (p : Draft) (text : String), Written (nestingBudget - 2) p text.toList →
      parse text = .ok p.complete := by
    intro p text h
    rw [parse, h.reads]
  refine ⟨fun s => ?_, hparse⟩
  have h := renderChars_written (nestingBudget - 2) s
  rw [hparse _ s.render (by simpa [render] using h)]
  rfl

def beside (value : List Char) : List Char :=
  '(' :: 'x' :: ':' :: (value ++ ',' :: (traceStepsName ++ ':' :: (renderBool true ++ [')'])))

theorem beside_written (h : Value n value) : Written n ⟨some true, none⟩ (beside value) := by
  have hx : Name ['x'] ['x'] := name_word (by decide)
  let other : Entry := ⟨['x'], [], [], value⟩
  let steps : Entry := ⟨traceStepsName, [], [], renderBool true⟩
  have hbody : Items [other.text, steps.text] ([] ++ (other.text ++ ([] ++ ',' ::
      ([] ++ (steps.text ++ []))))) := .cons .nil .nil (.last .nil .nil)
  have hdocument : Document typeName {} [other, steps] (beside value) := by
    have h : Document typeName {} [other, steps] _ := .mk .nil .nil (.none rfl) hbody (.blank .nil)
    simpa [beside, Entry.text, other, steps] using h
  exact ⟨{}, [other, steps], hdocument, .unknown hx ⟨.nil, .nil⟩ (by decide) (by decide) h
    (.traceSteps (settingNames _ (by simp)) ⟨.nil, .nil⟩ rfl rfl .nil)⟩

theorem parse_written_beside : Written (nestingBudget - 2) ⟨some true, none⟩
    (String.ofList (beside "[()]".toList)).toList ∧
    parse (String.ofList (beside "[()]".toList)) = .ok ⟨true, some 10⟩ := by
  have hitems : Items [['(', ')']] ([] ++ (['(', ')'] ++ [])) := .last .nil .nil
  have hlist : Value (nestingBudget - 2) "[()]".toList :=
    .list (fun i hi => List.mem_singleton.mp hi ▸ .unit) (.inr (by decide)) hitems
  have h : Written (nestingBudget - 2) ⟨some true, none⟩
      (String.ofList (beside "[()]".toList)).toList := by
    rw [String.toList_ofList]
    exact beside_written hlist
  exact ⟨h, parse_written.2 _ _ h⟩

def nested : Nat → List Char
  | 0 => ['[', ']']
  | k + 1 => '[' :: (nested k ++ [']'])

theorem nested_value : ∀ k, Value (2 * k + 1) (nested k)
  | 0 => by
    have hitems : Items [] [] := .nil .nil
    exact .list (by simp) (.inl rfl) hitems
  | k + 1 => by
    have h := nested_value k
    have hitems : Items [nested k] ([] ++ (nested k ++ [])) := .last .nil .nil
    have hlist : Value (2 * (k + 1) + 1) ('[' :: ([] ++ (nested k ++ []) ++ [']'])) :=
      .list (fun i hi => List.mem_singleton.mp hi ▸ h) (.inr (by omega)) hitems
    simpa [nested] using hlist

/-- The budget is a bound on what an unknown field may hold: behind a hundred lists, one inside the
other, nothing is read. -/
theorem parse_deep : Written 199 ⟨some true, none⟩ (String.ofList (beside (nested 99))).toList ∧
    parse (String.ofList (beside (nested 99))) = .error .malformed := by
  constructor
  · rw [String.toList_ofList]
    exact beside_written (nested_value 99)
  · have hnone : (ofChars? (beside (nested 99))).isNone = true := by decide +kernel
    rw [parse, String.toList_ofList, Option.isNone_iff_eq_none.mp hnone]

end Sequencer.Settings
