import Mathlib.Data.List.TakeWhile
import Sequencer.Proofs.Text.Delimited

/-!
# Names are read

A name stands for itself, or behind `r#` with points and signs in it as well. Both readers of names
take either form, and no keyword is found in a name that only begins like it.
-/

set_option autoImplicit false

namespace Sequencer.Text

inductive Name : List Char → List Char → Prop
  | plain {c : Char} {word : List Char} : isNameStart c = true →
      (∀ d ∈ word, isNameContinue d = true) → Name (c :: word) (c :: word)
  | raw {word : List Char} : word ≠ [] → (∀ d ∈ word, isRawNameChar d = true) →
      Name word ('r' :: '#' :: word)

variable {c : Char} {word text : List Char}

theorem isRawNameChar_of_isNameContinue (h : isNameContinue c = true) :
    isRawNameChar c = true := by
  simp [isRawNameChar, h]

/-- A word with a character that no name goes on with opens no name. -/
theorem isPrefixOf_eq_false {opening cs : List Char} {d : Char} (hd : d ∈ opening)
    (h : d ∉ cs) : opening.isPrefixOf cs = false := by
  rw [Bool.eq_false_iff]
  intro hp
  exact h ((List.isPrefixOf_iff_prefix.mp hp).subset hd)

theorem not_mem_of_isNameContinue (hc : isNameContinue c = false)
    (h : ∀ d ∈ text, isNameContinue d = true) : c ∉ text :=
  fun hmem => Bool.false_ne_true (hc.symm.trans (h c hmem))

/-- The characters that keep literals of bytes and raw names apart from plain names. -/
theorem opensAny_plain {openings : List (List Char)}
    (ho : ∀ o ∈ openings, o.any isSign = true)
    (h : ∀ d ∈ text, isNameContinue d = true) : Reader.opensAny openings text = false := by
  rw [Reader.opensAny, List.any_eq_false]
  intro o hmem
  obtain ⟨d, hd, hsign⟩ := List.any_eq_true.mp (ho o hmem)
  simp [isPrefixOf_eq_false hd (not_mem_of_isNameContinue (isNameContinue_sign hsign) h)]

theorem byteOpenings_marked : ∀ o ∈ Reader.byteOpenings, o.any isSign = true := by
  decide

theorem rawOpenings_marked : ∀ o ∈ Reader.rawOpenings, o.any isSign = true := by
  decide

/-- What distinguishes a raw name from a raw string comes right behind the hash sign. -/
theorem opensAny_raw (hne : word ≠ []) (h : ∀ d ∈ word, isRawNameChar d = true) :
    Reader.opensAny Reader.byteOpenings ('r' :: '#' :: word) = false ∧
      Reader.opensAny Reader.rawOpenings ('r' :: '#' :: word) = false := by
  obtain ⟨d, word, rfl⟩ := List.exists_cons_of_ne_nil hne
  have hd := h d (by simp)
  have hquote : d ≠ '"' := by
    rintro rfl
    simp [isRawNameChar, isNameContinue_sign (show isSign '"' = true by decide)] at hd
  have hhash : d ≠ '#' := by
    rintro rfl
    simp [isRawNameChar, isNameContinue_sign (show isSign '#' = true by decide)] at hd
  simp [Reader.opensAny, Reader.byteOpenings, Reader.rawOpenings, List.isPrefixOf, Ne.symm hquote,
    Ne.symm hhash]

def isWord : List Char → Bool
  | [] => false
  | c :: word => isNameStart c && word.all isNameContinue

theorem name_word (h : isWord word = true) : Name word word := by
  cases word with
  | nil => cases h
  | cons c word =>
    obtain ⟨hc, hall⟩ := Bool.and_eq_true_iff.mp h
    exact .plain hc (List.all_eq_true.mp hall)

theorem Name.head (h : Name word text) : ∃ c rest, text = c :: rest ∧ isNameStart c = true := by
  cases h with
  | plain hc _ => exact ⟨_, _, rfl, hc⟩
  | raw _ _ => exact ⟨_, _, rfl, by decide⟩

/-- All of a plain name goes on in a name, the first character too. -/
theorem isNameContinue_plain (hc : isNameStart c = true)
    (h : ∀ d ∈ word, isNameContinue d = true) : ∀ d ∈ c :: word, isNameContinue d = true := by
  intro d hd
  rcases List.mem_cons.mp hd with rfl | hd
  · exact isNameContinue_of_isNameStart hc
  · exact h d hd

namespace Reader

theorem name_whole (h : Name word text) : name text = some (word, []) := by
  cases h with
  | @plain c word hc hall =>
    have hplain := isNameContinue_plain hc hall
    have hbytes := opensAny_plain byteOpenings_marked hplain
    have hraw : ['r', '#'].isPrefixOf (c :: word) = false :=
      isPrefixOf_eq_false (d := '#') (by simp)
        (not_mem_of_isNameContinue (isNameContinue_sign (by decide)) hplain)
    have hrun := List.takeWhile_eq_self_iff.mpr hplain
    have hrest := List.dropWhile_eq_nil_iff.mpr hplain
    have hlong := List.takeWhile_eq_self_iff.mpr fun d hd =>
      isRawNameChar_of_isNameContinue (hplain d hd)
    simp [name, hc, hbytes, hraw, hrun, hrest, hlong]
  | raw hne hall =>
    have hstart : isNameStart 'r' = true := by decide
    have hrun := List.takeWhile_eq_self_iff.mpr hall
    have hrest := List.dropWhile_eq_nil_iff.mpr hall
    simp [name, hstart, (opensAny_raw hne hall).1, hrun, hrest, hne]

theorem name?_whole (h : Name word text) : name? text = some (some word, []) := by
  cases h with
  | @plain c word hc hall =>
    have hplain := isNameContinue_plain hc hall
    have hbytes := opensAny_plain byteOpenings_marked hplain
    have hraws := opensAny_plain rawOpenings_marked hplain
    have hraw : ['r', '#'].isPrefixOf (c :: word) = false :=
      isPrefixOf_eq_false (d := '#') (by simp)
        (not_mem_of_isNameContinue (isNameContinue_sign (by decide)) hplain)
    have hrun := List.takeWhile_eq_self_iff.mpr hall
    have hrest := List.dropWhile_eq_nil_iff.mpr hall
    simp [name?, hc, hbytes, hraws, hraw, hrun, hrest]
  | raw hne hall =>
    have hrun := List.takeWhile_eq_self_iff.mpr hall
    have hrest := List.dropWhile_eq_nil_iff.mpr hall
    simp [name?, opensAny_raw hne hall, hrun, hrest, hne]

/-- A keyword is no part of a longer name, and no raw name. -/
theorem keyword_name {key : List Char} (h : Name word text) (hne : text ≠ key) (hkey : key ≠ [])
    (hr : key.head? ≠ some 'r') : keyword key text = some (false, text) := by
  have hno : (key.isPrefixOf text && !nameGoesOn (text.drop key.length)) = false := by
    cases hp : key.isPrefixOf text with
    | false => rfl
    | true =>
      obtain ⟨more, hmore⟩ := List.isPrefixOf_iff_prefix.mp hp
      obtain ⟨d, more, rfl⟩ : ∃ d rest, more = d :: rest :=
        List.exists_cons_of_ne_nil fun hnil => hne (by simpa [hnil] using hmore.symm)
      have hd : isNameContinue d = true := by
        cases h with
        | plain hc hall => exact isNameContinue_plain hc hall d (hmore ▸ by simp)
        | raw _ _ =>
          obtain ⟨k, key, rfl⟩ := List.exists_cons_of_ne_nil hkey
          obtain ⟨rfl, -⟩ := List.cons.inj hmore
          exact absurd rfl hr
      rw [← hmore, List.drop_left]
      simp [nameGoesOn, hd]
  simp only [keyword, hno]
  rfl

end Reader

end Sequencer.Text
