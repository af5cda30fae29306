import Sequencer.Proofs.Text.Skipping

/-!
# Records are read

A text that holds one record: attributes, perhaps a name, and in parentheses any fields in any
order, with blanks wherever two tokens meet. What a reader makes of the fields it knows it makes of
the whole text, and the fields it does not know are skipped if their values nest within the budget.
-/

set_option autoImplicit false

namespace Sequencer.Text

open Reader

inductive Tokens : List (List Char) → List Char → Prop
  | nil : Tokens [] []
  | cons {word b text : List Char} {words : List (List Char)} : Blank b → Tokens words text →
      Tokens (word :: words) (word ++ (b ++ text))

inductive ExtensionNames : Extensions → List Char → Extensions → Prop
  | last {e e' : Extensions} {comma : Bool} {word text b : List Char} : Name word text →
      extension e word = some e' → Comma comma b → ExtensionNames e (text ++ b) e'
  | cons {e e' e'' : Extensions} {word text b more : List Char} : Name word text →
      extension e word = some e' → Comma true b → ExtensionNames e' more e'' →
      ExtensionNames e (text ++ (b ++ more)) e''

inductive Attributes : Extensions → List Char → Extensions → Prop
  | nil {e : Extensions} : Attributes e [] e
  | cons {e e' e'' : Extensions} {opening names closing more : List Char} :
      Tokens [['#'], ['!'], ['['], "enable".toList, ['(']] opening → ExtensionNames e names e' →
      Tokens [[')'], [']']] closing → Attributes e' more e'' →
      Attributes e (opening ++ (names ++ (closing ++ more))) e''

inductive RecordName (e : Extensions) (word : List Char) : List Char → Prop
  | none : e.explicitNames = false → RecordName e word []
  | name {text b : List Char} : Name word text → Blank b → RecordName e word (text ++ b)

/-- Fields, given in turn, take what is read of a record from one state to another: a field that is
known has a value that its reader takes, and one that is not known has any value. -/
inductive Fills {α : Type} (budget : Nat) (field : List Char → α → Option (Reader α)) :
    α → List Entry → α → Prop
  | nil {x : α} : Fills budget field x [] x
  | known {x y z : α} {word : List Char} {r : Reader α} {entry : Entry} {entries : List Entry} :
      Name word entry.key → entry.Spaced → field word x = some r → Opens entry.value →
      Takes r y entry.value → Fills budget field y entries z →
      Fills budget field x (entry :: entries) z
  | unknown {x z : α} {word : List Char} {entry : Entry} {entries : List Entry} :
      Name word entry.key → entry.Spaced → field word x = none → Value budget entry.value →
      Fills budget field x entries z → Fills budget field x (entry :: entries) z

inductive Document (word : List Char) : Extensions → List Entry → List Char → Prop
  | mk {e : Extensions} {entries : List Entry} {b attributes title body b' : List Char} :
      Blank b → Attributes {} attributes e → RecordName e word title →
      Items (entries.map Entry.text) body → LastBlank b' →
      Document word e entries (b ++ (attributes ++ (title ++ '(' :: (body ++ ')' :: b'))))

variable {α : Type} {e e' : Extensions} {budget n : Nat} {c : Char} {b text word rest : List Char}
  {field : List Char → α → Option (Reader α)} {x y z : α}

def Solid (text : List Char) : Prop := ∃ c rest, text = c :: rest ∧ isSolid c = true

theorem Solid.append (h : Solid text) (rest : List Char) : Solid (text ++ rest) := by
  obtain ⟨c, more, rfl, hc⟩ := h
  exact ⟨c, more ++ rest, rfl, hc⟩

theorem ExtensionNames.head {names : List Char} (h : ExtensionNames e names e') :
    ∃ c rest, names = c :: rest ∧ isNameStart c = true := by
  cases h with
  | last hn _ _ | cons hn _ _ _ =>
    obtain ⟨c, rest, rfl, hc⟩ := hn.head
    exact ⟨c, _, rfl, hc⟩

theorem Attributes.solid (h : Attributes e text e') (hr : Solid rest) : Solid (text ++ rest) := by
  cases h with
  | nil => exact hr
  | cons hopen _ _ _ =>
    cases hopen with
    | cons _ _ => exact ⟨'#', _, rfl, by decide⟩

/-- No attribute begins where the record does. -/
theorem RecordName.head {title : List Char} (h : RecordName e word title) (rest : List Char) :
    ∃ c more, title ++ '(' :: rest = c :: more ∧ isSolid c = true ∧ c ≠ '#' := by
  cases h with
  | none _ => exact ⟨'(', rest, rfl, by decide, by decide⟩
  | name hn _ =>
    obtain ⟨c, more, rfl, hc⟩ := hn.head
    refine ⟨c, _, rfl, isSolid_of_opensItem (opensItem_of_isNameStart hc), ?_⟩
    rintro rfl
    exact Bool.false_ne_true ((isNameStart_sign (by decide)).symm.trans hc)

namespace Reader

theorem blanks_before (hb : Blank b) (h : Solid text) : blanks (b ++ text) = some ((), text) := by
  obtain ⟨c, rest, rfl, hc⟩ := h
  exact blanks_append hb hc rest

theorem tokens_append {words : List (List Char)} (h : Tokens words text)
    (hw : ∀ w ∈ words, Solid w) (hr : Solid rest) :
    tokens words (text ++ rest) = some ((), rest) := by
  induction h with
  | nil => rfl
  | @cons word b text words hb h ih =>
    have hnext : Solid (text ++ rest) := by
      cases h with
      | nil => exact hr
      | cons _ _ =>
        rw [List.append_assoc]
        exact (hw _ (by simp)).append _
    rw [List.append_assoc, List.append_assoc, tokens, bind_some (require_append word _),
      bind_some (blanks_before hb hnext)]
    exact ih fun w hmem => hw w (by simp [hmem])

/-! Attributes -/

/-- A name and what stands behind it, up to the token that comes next. -/
theorem name_comma (hn : Name word text) {some? : Bool} (hb : Comma some? b)
    (ht : Ends (b ++ c :: rest)) (hc : isSolid c = true) (hne : c ≠ ',') :
    ∃ left, name (text ++ (b ++ c :: rest)) = some (word, left) ∧
      comma left = some (some?, c :: rest) := by
  obtain ⟨left, hl, hleft⟩ := delimited_name.takes (name_whole hn) _ ht
  exact ⟨left, hl, (comma_congr hleft).trans (comma_append hb hc hne rest)⟩

/-- After a name and its comma either another name comes or the names end. -/
theorem extensionNames_name (hn : Name word text) (he : extension e word = some e')
    {some? : Bool} (hb : Comma some? b) (ht : Ends (b ++ c :: rest)) (hc : isSolid c = true)
    (hne : c ≠ ',') : extensionNames (n + 1) e (text ++ (b ++ c :: rest)) =
      (if isNameContinue c then if some? then extensionNames n e' else refuse else pure e')
        (c :: rest) := by
  obtain ⟨left, hl, hcomma⟩ := name_comma hn hb ht hc hne
  rw [extensionNames, bind_some hl, he]
  exact bind_some hcomma _

/-- The names are read in turn; there is at least a character for each. -/
theorem extensionNames_append {names : List Char} (h : ExtensionNames e names e')
    (hn : names.length ≤ n) (rest : List Char) :
    extensionNames n e (names ++ ')' :: rest) = some (e', ')' :: rest) := by
  induction h generalizing n with
  | @last e e' some? word text b hname he hb =>
    obtain ⟨c, more, heq, -⟩ := hname.head
    obtain ⟨n, rfl⟩ : ∃ k, n = k + 1 := Nat.exists_eq_add_one.mpr (by simp [heq] at hn; omega)
    have hclose : isNameContinue ')' = false := isNameContinue_sign (by decide)
    rw [List.append_assoc, extensionNames_name hname he hb
      (hb.ends_closing (show closes ')' = true by decide) rest) (by decide) (by decide), hclose]
    rfl
  | @cons e e' e'' word text b more hname he hb hmore ih =>
    obtain ⟨c, tail, heq, -⟩ := hname.head
    obtain ⟨n, rfl⟩ : ∃ k, n = k + 1 := Nat.exists_eq_add_one.mpr (by simp [heq] at hn; omega)
    have hrest := ih (n := n) (by simp [heq] at hn; omega)
    obtain ⟨d, names, rfl, hd⟩ := hmore.head
    have hcomma : d ≠ ',' := by
      rintro rfl
      exact Bool.false_ne_true ((isNameStart_sign (by decide)).symm.trans hd)
    rw [List.append_assoc, List.append_assoc, List.cons_append, extensionNames_name hname he hb
      (hb.ends _) (isSolid_of_opensItem (opensItem_of_isNameStart hd)) hcomma,
      if_pos (isNameContinue_of_isNameStart hd)]
    exact hrest

theorem attributes_append {text : List Char} (h : Attributes e text e') (hn : text.length ≤ n)
    (hr : Solid rest) (hno : rest.head? ≠ some '#') :
    attributes n e (text ++ rest) = some (e', rest) := by
  have hsolid : ∀ ws ∈ [[['#'], ['!'], ['['], "enable".toList, ['(']], [[')'], [']']]],
      ∀ w ∈ ws, Solid w := by
    intro ws hws w hw
    have hall : ∀ ws ∈ [[['#'], ['!'], ['['], "enable".toList, ['(']], [[')'], [']']]],
        ∀ w ∈ ws, w.head?.any isSolid = true := by
      decide
    have hhead := hall ws hws w hw
    cases w with
    | nil => cases hhead
    | cons c w => exact ⟨c, w, rfl, hhead⟩
  induction h generalizing n with
  | nil =>
    cases n with
    | zero => rfl
    | succ n =>
      obtain ⟨c, rest, rfl, -⟩ := hr
      have hne : '#' ≠ c := fun h => hno (by simp [← h])
      rw [List.nil_append, attributes, bind_some (ahead_other hne)]
      rfl
  | @cons e e' e'' opening names closing more hopen hnames hclose hmore ih =>
    have hnext := tokens_append hclose (hsolid _ (by simp)) (hmore.solid hr)
    have hbody : Solid (names ++ (closing ++ (more ++ rest))) := by
      obtain ⟨c, names, rfl, hc⟩ := hnames.head
      exact ⟨c, _, rfl, isSolid_of_opensItem (opensItem_of_isNameStart hc)⟩
    have hfirst := tokens_append hopen (hsolid _ (by simp)) hbody
    cases hopen with
    | @cons _ b opening _ _ _ =>
      cases hclose with
      | @cons _ b' closing _ _ _ =>
        obtain ⟨n, rfl⟩ : ∃ k, n = k + 1 := Nat.exists_eq_add_one.mpr (by simp at hn; omega)
        have hnames' := extensionNames_append hnames
          (n := (names ++ ([')'] ++ (b' ++ closing) ++ (more ++ rest))).length) (by simp)
          (b' ++ closing ++ (more ++ rest))
        have hrest := ih (n := n) (by simp at hn; omega)
        simp only [List.append_assoc, List.cons_append, List.nil_append] at *
        rw [attributes, bind_some (ahead_head '#' _), if_pos rfl, bind_some hfirst,
          bind_some (left_apply _), bind_some hnames', bind_some hnext, hrest]

theorem recordName_append {title : List Char} (h : RecordName e word title) (rest : List Char) :
    ∃ left, recordName e word (title ++ '(' :: rest) = some ((), left) ∧
      blanks left = some ((), '(' :: rest) := by
  have hblanks := blanks_solid (c := '(') (by decide) rest
  cases h with
  | none he =>
    have hgo : nameGoesOn ('(' :: rest) = false := isNameContinue_sign (by decide)
    exact ⟨_, by simp [recordName, hgo, he], hblanks⟩
  | @name text b hn hb =>
    have hname := delimited_name.before (name_whole hn) hb (c := '(') (by decide) rest
    refine ⟨_, ?_, blanks_append hb (by decide) rest⟩
    obtain ⟨c, more, rfl, hc⟩ := hn.head
    have hgo : nameGoesOn (c :: (more ++ (b ++ '(' :: rest))) = true :=
      isNameContinue_of_isNameStart hc
    rw [List.append_assoc]
    rw [List.cons_append] at hname ⊢
    simp [recordName, hgo, hname]

/-! Fields -/

theorem fields_congr {cs cs' : List Char} {hadComma : Bool} (h : blanks cs = blanks cs') :
    fields e budget field (n + 1) hadComma x cs = fields e budget field (n + 1) hadComma x cs' := by
  rw [fields, bind_apply, bind_apply, h]

theorem fields_close {hadComma : Bool} (hb : Blank b) (rest : List Char) :
    fields e budget field (n + 1) hadComma x (b ++ ')' :: rest) = some (x, ')' :: rest) := by
  rw [fields, bind_some (blanks_append hb (by decide) rest), bind_some (ahead_head ')' rest)]
  rfl

def fieldValue (e : Extensions) (budget : Nat) (field : List Char → α → Option (Reader α))
    (word : List Char) (x : α) : Reader α :=
  match field word x with
  | some r => r
  | none => do
    skipValue e budget
    pure x

/-- One field is read, and what comes behind its comma after that. -/
theorem fields_entry {entry : Entry} {tail left : List Char} {more : Bool} (hb : Blank b)
    (hn : Name word entry.key) (hs : entry.Spaced) (ho : Opens entry.value)
    (hv : Takes (fieldValue e budget field word x) y entry.value) (ht : Ends tail)
    (hcomma : comma tail = some (more, left)) :
    fields e budget field (n + 1) true x (b ++ (entry.text ++ tail)) =
      fields e budget field n more y left := by
  have hkey : Opens entry.key := by simpa using hn.opens []
  have htext : entry.text ++ tail =
      entry.key ++ (entry.before ++ ':' :: (entry.after ++ (entry.value ++ tail))) := by
    simp [Entry.text]
  have hname := delimited_name.before (name_whole hn) hs.before
    (show isDelimiter ':' = true by decide) (entry.after ++ (entry.value ++ tail))
  have hahead : ahead [')'] (entry.text ++ tail) = some (false, entry.text ++ tail) := by
    rw [htext]
    obtain ⟨d, key, hd, hopen⟩ := hkey
    rw [hd]
    refine ahead_other ?_
    rintro rfl
    exact absurd hopen (by decide)
  obtain ⟨left', hl, hleft⟩ := hv tail ht
  have hvalue : (do blanks; require [':']; blanks; fieldValue e budget field word x : Reader α)
      (entry.before ++ ':' :: (entry.after ++ (entry.value ++ tail))) = some (y, left') := by
    rw [bind_some (blanks_append hs.before (by decide) _), bind_some (require_head ':' _),
      bind_some (blanks_opens hs.after ho tail), hl]
  rw [fields, bind_some (blanks_opens hb (Entry.opens hkey) tail), bind_some hahead]
  simp only [Bool.false_eq_true, if_false, if_true]
  rw [htext, bind_some hname]
  exact (bind_some hvalue _).trans (bind_some ((comma_congr hleft).trans hcomma) _)

end Reader

theorem Fills.opens {entries : List Entry} (h : Fills budget field x entries z) :
    ∀ i ∈ entries.map Entry.text, Opens i := by
  refine entries_open ?_
  induction h with
  | nil => simp
  | known hn _ _ _ _ _ ih | unknown hn _ _ _ _ ih =>
    intro entry hmem
    rcases List.mem_cons.mp hmem with rfl | hmem
    · simpa using hn.opens []
    · exact ih entry hmem

/-- Known or not, the value of the first field is taken, and the other fields go on from there. -/
theorem Fills.uncons {entry : Entry} {entries : List Entry}
    (h : Fills budget field x (entry :: entries) z) (e : Extensions) :
    ∃ word y, Name word entry.key ∧ entry.Spaced ∧ Opens entry.value ∧
      Takes (fieldValue e budget field word x) y entry.value ∧ Fills budget field y entries z := by
  cases h with
  | @known _ y _ word r _ _ hn hs hf ho hv hrest =>
    have hread : fieldValue e budget field word x = r := by rw [fieldValue, hf]
    exact ⟨word, y, hn, hs, ho, hread ▸ hv, hrest⟩
  | @unknown _ _ word _ _ hn hs hf hv hrest =>
    have hread : fieldValue e budget field word x = (do skipValue e budget; pure x) := by
      rw [fieldValue, hf]
    exact ⟨word, x, hn, hs, hv.opens, hread ▸ (hv.takes e).map fun _ => x, hrest⟩

/-- The fields are read in turn, by induction on them. -/
theorem Fills.reads {entries : List Entry} (h : Fills budget field x entries z)
    (hi : Items (entries.map Entry.text) text) (hn : entries.length < n) {hadComma : Bool}
    (hhad : entries ≠ [] → hadComma = true) (e : Extensions) (rest : List Char) :
    fields e budget field n hadComma x (text ++ ')' :: rest) = some (z, ')' :: rest) := by
  induction entries generalizing n text hadComma x with
  | nil =>
    obtain ⟨n, rfl⟩ := Nat.exists_eq_add_one.mpr hn
    cases h
    cases hi with
    | nil hb => exact fields_close hb rest
  | cons entry entries ih =>
    obtain ⟨n, rfl⟩ : ∃ k, n = k + 2 := ⟨n - 2, by simp at hn; omega⟩
    obtain ⟨word, y, hname, hs, ho, hv, hrest⟩ := h.uncons e
    obtain ⟨b, tail, more, left, text', hb, heq, ht, hleft, hmore, hitems, hsame⟩ :=
      hi.uncons hrest.opens (show closes ')' = true by decide) (by decide) rest
    rw [hhad (List.cons_ne_nil _ _), heq, fields_entry hb hname hs ho hv ht hleft,
      fields_congr hsame]
    exact ih hrest hitems (by simp at hn; omega) fun hne => hmore (by simpa using hne)

/-- A text that holds a record is read as what its fields make of the record. -/
theorem Document.reads {entries : List Entry} {start a : α}
    {field : Extensions → List Char → α → Option (Reader α)} (h : Document word e entries text)
    (hf : Fills (nestingBudget - 2) (field e) start entries a) :
    readRecord word start field text = some a := by
  cases h with
  | @mk b attributes title body b' hb ha ht hi hb' =>
    have hlen := hi.length_le hf.opens
    have hfields := hf.reads hi (n := (body ++ ')' :: b').length) (by simp at hlen ⊢; omega)
      (fun _ => rfl) e b'
    have hcomma : comma (')' :: b') = some (false, ')' :: b') :=
      comma_other (by decide) (by decide) b'
    obtain ⟨left, hname, hblanks⟩ := recordName_append ht (body ++ ')' :: b')
    obtain ⟨c, more, heq, hc, hne⟩ := ht.head (body ++ ')' :: b')
    have hsolid : Solid (title ++ '(' :: (body ++ ')' :: b')) := ⟨c, more, heq, hc⟩
    have hattributes := attributes_append ha
      (n := (attributes ++ (title ++ '(' :: (body ++ ')' :: b'))).length) (by simp) hsolid
      (by simp [heq, hne])
    simp only [readRecord]
    rw [bind_some (blanks_before hb (ha.solid hsolid)), bind_some (left_apply _),
      bind_some hattributes, bind_some hname, bind_some hblanks, bind_some (require_head '(' _),
      bind_some (left_apply _), bind_some hfields, bind_some hcomma,
      bind_some (require_head ')' b'), bind_some (blanks_last hb')]
    rfl

end Sequencer.Text
