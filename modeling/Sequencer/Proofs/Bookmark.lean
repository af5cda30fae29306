import Sequencer.Bookmark
import Sequencer.Proofs.Text.Records

/-!
# Bookmarks as text

A bookmark is written as a record without a name, its fields in order and nothing between them.
Reading the record field by field gives the bookmark back, whatever its sequence is called.
-/

set_option autoImplicit false

namespace Sequencer

open Text Text.Reader

namespace Bookmark

def renderBody (b : Bookmark) : List Char :=
  sequenceName ++ ':' :: '"' :: (b.sequence.toList.flatMap (escaped true) ++ '"' :: ',' ::
    (indexName ++ ':' :: (Nat.toDigits 10 b.index ++ [')'])))

theorem renderChars_eq (b : Bookmark) : b.renderChars = '(' :: b.renderBody := by
  simp [renderChars, renderBody, quoted]

theorem isPlainName_sequenceName : isPlainName sequenceName = true := by decide +kernel

theorem isPlainName_indexName : isPlainName indexName = true := by decide +kernel

theorem field_sequence (p : Draft) (h : p.sequence = none) :
    field {} sequenceName p = some (do return { p with sequence := some (← Reader.string) }) := by
  simp [field, h]

theorem field_index (p : Draft) (h : p.index = none) :
    field {} indexName p = some (do return { p with index := some (← Reader.unsigned64) }) := by
  have hne : indexName ≠ sequenceName := by decide
  simp [field, h, hne]

/-- The first field is read up to its comma, the second up to the closing parenthesis. -/
theorem fields_renderBody {b : Bookmark} (h : b.index ≤ Decimal.pow2 64 - 1) (n : Nat) :
    fields {} (nestingBudget - 2) (field {}) (n + 3) true {} b.renderBody =
      some (⟨some b.sequence.toList, some b.index⟩, [')']) := by
  obtain ⟨d, ds, hds, hd⟩ := toDigits_cons b.index
  have hdigits : Nat.toDigits 10 b.index ++ [')'] = d :: (ds ++ [')']) := by rw [hds]; rfl
  have hindex := unsigned64_toDigits h []
  have hstring := string_spells (spells_escaped b.sequence.toList) (',' :: (indexName ++ ':' ::
    (Nat.toDigits 10 b.index ++ [')'])))
  rw [renderBody, fields_cons isPlainName_sequenceName (field_sequence {} rfl) (by decide)
    (bind_some hstring _) (comma_name isPlainName_indexName _)]
  rw [hdigits] at hindex ⊢
  have hvalue := bind_some hindex fun n : Nat =>
    (pure { sequence := some b.sequence.toList, index := some n } : Reader Draft)
  have hcomma : comma [')'] = some (false, [')']) := comma_other (by decide) (by decide) _
  rw [fields_cons isPlainName_indexName (field_index ⟨some b.sequence.toList, none⟩ rfl)
    (isSolid_of_isDigit hd) hvalue hcomma]
  exact fields_nil _ _ []

theorem ofChars?_renderChars {b : Bookmark} (h : b.index ≤ Decimal.pow2 64 - 1) :
    ofChars? b.renderChars = some b := by
  have hlength : 3 ≤ b.renderBody.length := by
    simp only [renderBody, List.length_append, List.length_cons]
    omega
  obtain ⟨n, hn⟩ := Nat.exists_eq_add_of_le' hlength
  have hfields := fields_renderBody h n
  rw [← hn] at hfields
  rw [renderChars_eq, ofChars?, readRecord_fields hfields]
  show some ({ sequence := String.ofList b.sequence.toList, index := b.index } : Bookmark) = _
  rw [String.ofList_toList]

/-- A bookmark is written as one line, with the name of the sequence spelt out between quotes and
the index in decimal. Reading it gives the same bookmark, for every name and every index of 64
bits. -/
theorem text_roundtrip (name : String) (index : UInt64) :
    (∃ text, Spells name.toList text ∧ (render ⟨name, index.toNat⟩).toList =
      "(sequence:\"".toList ++ text ++ "\",step_index:".toList ++ Nat.toDigits 10 index.toNat ++
        [')']) ∧
      parse? (render ⟨name, index.toNat⟩) = some ⟨name, index.toNat⟩ := by
  have hopen : "(sequence:\"".toList = '(' :: (sequenceName ++ [':', '"']) := by decide
  have hbetween : "\",step_index:".toList = '"' :: ',' :: (indexName ++ [':']) := by decide
  have hindex : index.toNat ≤ Decimal.pow2 64 - 1 := by
    have hlt := index.toNat_lt
    have hpow : Decimal.pow2 64 = 18446744073709551616 := by rfl
    omega
  constructor
  · refine ⟨_, spells_escaped name.toList, ?_⟩
    rw [render, String.toList_ofList, renderChars_eq, renderBody, hopen, hbetween]
    simp only [List.cons_append, List.nil_append, List.append_assoc]
  · rw [parse?, render, String.toList_ofList]
    exact ofChars?_renderChars hindex

end Bookmark

end Sequencer
