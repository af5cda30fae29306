import Sequencer.Proofs.Text.Blanks
import Sequencer.Proofs.Text.Names

/-!
# Items between brackets

Lists, maps, tuples and records hold items with commas between them and blanks wherever two tokens
meet. A reader of one item may leave the blanks behind it or skip them: what goes on behind an item
begins by skipping blanks, so it makes no difference.
-/

set_option autoImplicit false

namespace Sequencer.Text

inductive Items : List (List Char) → List Char → Prop
  | nil {b : List Char} : Blank b → Items [] b
  | last {b b' item : List Char} : Blank b → Blank b' → Items [item] (b ++ (item ++ b'))
  | cons {b b' item text : List Char} {items : List (List Char)} : Blank b → Blank b' →
      Items items text → Items (item :: items) (b ++ (item ++ (b' ++ ',' :: text)))

structure Entry where
  key : List Char
  before : List Char
  after : List Char
  value : List Char

def Entry.text (e : Entry) : List Char := e.key ++ (e.before ++ ':' :: (e.after ++ e.value))

structure Entry.Spaced (e : Entry) : Prop where
  before : Blank e.before
  after : Blank e.after

def closes (c : Char) : Bool := [',', ':', ')', ']', '\x7d'].contains c

inductive Ends : List Char → Prop
  | mk {b rest : List Char} {c : Char} : Blank b → closes c = true → Ends (b ++ c :: rest)

def opensItem (c : Char) : Bool := !isDelimiter c || ['(', '[', '\x7b'].contains c

def Opens (text : List Char) : Prop := ∃ c rest, text = c :: rest ∧ opensItem c = true

open Reader

variable {c : Char} {b text rest : List Char}

theorem isSolid_of_not_isDelimiter (h : isDelimiter c = false) : isSolid c = true := by
  have hblank : isBlank c = false := by
    rw [Bool.eq_false_iff]
    intro hc
    exact Bool.false_ne_true (h.symm.trans (isDelimiter_of_isBlank hc))
  have hslash : c ≠ '/' := by
    rintro rfl
    exact absurd h (by decide)
  simp [isSolid, hblank, hslash]

theorem isDelimiter_of_closes (h : closes c = true) : isDelimiter c = true := by
  have hall : ∀ d ∈ [',', ':', ')', ']', '\x7d'], isDelimiter d = true :=
    List.all_eq_true.mp (by decide)
  exact hall c (by simpa [closes] using h)

theorem isSolid_of_closes (h : closes c = true) : isSolid c = true := by
  have hall : ∀ d ∈ [',', ':', ')', ']', '\x7d'], isSolid d = true :=
    List.all_eq_true.mp (by decide)
  exact hall c (by simpa [closes] using h)

/-- No item begins where one could end. -/
theorem closes_of_opensItem (h : opensItem c = true) : closes c = false := by
  rw [Bool.eq_false_iff]
  intro hc
  have hall : ∀ d ∈ [',', ':', ')', ']', '\x7d'], ¬ opensItem d = true :=
    List.any_eq_false.mp (by decide)
  exact hall c (by simpa [closes] using hc) h

theorem isSolid_of_opensItem (h : opensItem c = true) : isSolid c = true := by
  simp only [opensItem, Bool.or_eq_true, Bool.not_eq_true'] at h
  rcases h with h | h
  · exact isSolid_of_not_isDelimiter h
  · have hall : ∀ d ∈ ['(', '[', '\x7b'], isSolid d = true := List.all_eq_true.mp (by decide)
    exact hall c (by simpa using h)

theorem opensItem_of_isNameStart (h : isNameStart c = true) : opensItem c = true := by
  cases hc : isDelimiter c with
  | false => simp [opensItem, hc]
  | true => exact absurd (isNameStart_sign (isSign_of_isDelimiter hc)) (by simp [h])

theorem Name.opens {word : List Char} (h : Name word text) (rest : List Char) :
    Opens (text ++ rest) := by
  obtain ⟨c, more, rfl, hc⟩ := h.head
  exact ⟨c, more ++ rest, rfl, opensItem_of_isNameStart hc⟩

theorem Opens.append (h : Opens text) (rest : List Char) : Opens (text ++ rest) := by
  obtain ⟨c, more, rfl, hc⟩ := h
  exact ⟨c, more ++ rest, rfl, hc⟩

/-- Either a blank is empty, or it begins with a delimiter of its own. -/
theorem Blank.head (hb : Blank b) (hc : isDelimiter c = true) (rest : List Char) :
    ∃ d more, b ++ c :: rest = d :: more ∧ isDelimiter d = true := by
  cases hb with
  | nil => exact ⟨c, rest, rfl, hc⟩
  | white hd _ => exact ⟨_, _, rfl, isDelimiter_of_isBlank hd⟩
  | line _ _ => exact ⟨_, _, rfl, by decide⟩
  | block _ _ => exact ⟨_, _, rfl, by decide⟩

/-- A comma goes on behind an item, whatever comes next. -/
theorem Comma.ends (h : Comma true b) (rest : List Char) : Ends (b ++ rest) := by
  cases h with
  | some hb _ =>
    rw [List.append_assoc, List.cons_append]
    exact .mk hb (by decide)

theorem Comma.ends_closing {some? : Bool} (h : Comma some? b) (hc : closes c = true)
    (rest : List Char) : Ends (b ++ c :: rest) := by
  cases h with
  | none hb => exact .mk hb hc
  | some hb hb' => exact (Comma.some hb hb').ends _

/-- Items begin with blanks, and behind these with something that is no blank. -/
theorem Items.begins {items : List (List Char)} {close : Char} (h : Items items text)
    (ho : ∀ i ∈ items, Opens i) (hc : closes close = true) (hcomma : close ≠ ',')
    (rest : List Char) : ∃ b d more, Blank b ∧ isSolid d = true ∧ d ≠ ',' ∧
      text ++ close :: rest = b ++ d :: more := by
  have hitem : ∀ b item more, Blank b → Opens item → ∃ b' d more', Blank b' ∧ isSolid d = true ∧
      d ≠ ',' ∧ b ++ (item ++ more) = b' ++ d :: more' := by
    rintro b item more hb ⟨d, item, rfl, hd⟩
    refine ⟨b, d, item ++ more, hb, isSolid_of_opensItem hd, ?_, rfl⟩
    rintro rfl
    exact absurd hd (by decide)
  cases h with
  | nil hb => exact ⟨_, close, rest, hb, isSolid_of_closes hc, hcomma, rfl⟩
  | last hb _ => simpa using hitem _ _ _ hb (ho _ (by simp))
  | cons hb _ _ => simpa using hitem _ _ _ hb (ho _ (by simp))

/-- The first character between two brackets does not close them. -/
theorem Items.head {items : List (List Char)} {d : Char} (h : Items items (d :: text))
    (ho : ∀ i ∈ items, Opens i) : closes d = false := by
  have hblank : ∀ b more, Blank b → b ≠ [] → d :: text = b ++ more → closes d = false := by
    intro b more hb hne heq
    have hall : ∀ c, isBlank c = true → closes c = false := by
      intro c hc
      rw [Bool.eq_false_iff]
      intro h
      have hno : ∀ d ∈ [',', ':', ')', ']', '\x7d'], ¬ isBlank d = true :=
        List.any_eq_false.mp (by decide)
      exact hno c (by simpa [closes] using h) hc
    cases hb with
    | nil => exact absurd rfl hne
    | white hc _ =>
      obtain ⟨rfl, -⟩ := List.cons.inj heq
      exact hall d hc
    | line _ _ =>
      obtain ⟨rfl, -⟩ := List.cons.inj heq
      decide
    | block _ _ =>
      obtain ⟨rfl, -⟩ := List.cons.inj heq
      decide
  have hitem : ∀ b item more, Blank b → Opens item → d :: text = b ++ (item ++ more) →
      closes d = false := by
    rintro b item more hb ⟨c, item, rfl, hc⟩ heq
    by_cases hne : b = []
    · subst hne
      obtain ⟨rfl, -⟩ := List.cons.inj heq
      exact closes_of_opensItem hc
    · exact hblank b _ hb hne heq
  generalize htext : d :: text = cs at h
  cases h with
  | nil hb =>
    subst htext
    exact hblank _ [] hb (by simp) (by simp)
  | last hb _ => exact hitem _ _ _ hb (ho _ (by simp)) htext
  | cons hb _ _ => exact hitem _ _ _ hb (ho _ (by simp)) htext

theorem Items.length_le {items : List (List Char)} (h : Items items text)
    (ho : ∀ i ∈ items, Opens i) : items.length ≤ text.length := by
  induction h with
  | nil _ => simp
  | @last b b' item _ _ =>
    obtain ⟨c, more, rfl, -⟩ := ho item (by simp)
    simp
    omega
  | @cons b b' item text items _ _ _ ih =>
    have := ih fun i hi => ho i (by simp [hi])
    simp
    omega

/-- In front of a closing bracket stand the first item and what comes behind it: a comma where there
is another item, and behind the last one a comma or none. -/
theorem Items.uncons {item : List Char} {items : List (List Char)} {close : Char}
    (h : Items (item :: items) text) (ho : ∀ i ∈ items, Opens i) (hc : closes close = true)
    (hcomma : close ≠ ',') (rest : List Char) : ∃ b tail more left text', Blank b ∧
      text ++ close :: rest = b ++ (item ++ tail) ∧ Ends tail ∧ comma tail = some (more, left) ∧
      (items ≠ [] → more = true) ∧ Items items text' ∧
      blanks left = blanks (text' ++ close :: rest) := by
  cases h with
  | @last b b' _ hb hb' =>
    exact ⟨b, b' ++ close :: rest, false, close :: rest, [], hb, by simp, .mk hb' hc,
      comma_append (.none hb') (isSolid_of_closes hc) hcomma rest, fun hne => absurd rfl hne,
      .nil .nil, rfl⟩
  | @cons b b' _ text _ hb hb' hitems =>
    obtain ⟨b₂, d, more, hb₂, hd, hne, heq⟩ := hitems.begins ho hc hcomma rest
    refine ⟨b, b' ++ ',' :: (text ++ close :: rest), true, d :: more, text, hb, by simp,
      .mk hb' (by decide), ?_, fun _ => rfl, hitems, ?_⟩
    · rw [heq, ← List.cons_append, ← List.append_assoc]
      exact comma_append (.some hb' hb₂) hd hne more
    · rw [heq, blanks_append hb₂ hd more, blanks_solid hd more]

namespace Reader

variable {α β : Type} {a : α}

/-- A blank ends a token like the delimiter behind it. -/
theorem Delimited.blank {r : Reader α} (h : Delimited r) (text : List Char) (hb : Blank b)
    (hc : isDelimiter c = true) (rest : List Char) :
    r (text ++ (b ++ c :: rest)) = (r text).map fun p => (p.1, p.2 ++ (b ++ c :: rest)) := by
  obtain ⟨d, more, hd, hdel⟩ := hb.head hc rest
  rw [hd]
  exact h text d more hdel

/-- A token is taken whole, and the blank behind it is left. -/
theorem Delimited.before {r : Reader α} (h : Delimited r) (ht : r text = some (a, []))
    (hb : Blank b) (hc : isDelimiter c = true) (rest : List Char) :
    r (text ++ (b ++ c :: rest)) = some (a, b ++ c :: rest) := by
  rw [h.blank text hb hc rest, ht]
  rfl

/-- A reader takes a text in front of whatever may come behind an item. It may go on to the end of
the blanks there. -/
def Takes (r : Reader α) (a : α) (text : List Char) : Prop :=
  ∀ tail, Ends tail → ∃ left, r (text ++ tail) = some (a, left) ∧ blanks left = blanks tail

theorem Delimited.takes {r : Reader α} (h : Delimited r) (ht : r text = some (a, [])) :
    Takes r a text := by
  rintro _ ⟨hb, hc⟩
  exact ⟨_, h.before ht hb (isDelimiter_of_closes hc) _, rfl⟩

theorem Takes.map {r : Reader α} (h : Takes r a text) (f : α → β) :
    Takes (do return f (← r)) (f a) text := by
  intro tail ht
  obtain ⟨left, hl, hb⟩ := h tail ht
  exact ⟨left, bind_some hl _, hb⟩

theorem Takes.discard {r : Reader α} (h : Takes r a text) : Takes (do let _ ← r) () text := by
  intro tail ht
  obtain ⟨left, hl, hb⟩ := h tail ht
  exact ⟨left, bind_some hl _, hb⟩

/-- What is taken whole in front of anything is taken. -/
theorem takes_of_append {r : Reader α} (h : ∀ tail, r (text ++ tail) = some (a, tail)) :
    Takes r a text :=
  fun tail _ => ⟨tail, h tail, rfl⟩

theorem comma_congr {left tail : List Char} (h : blanks left = blanks tail) :
    comma left = comma tail := by
  rw [comma, bind_apply, bind_apply, h]

theorem blanks_opens (hb : Blank b) (ht : Opens text) (rest : List Char) :
    blanks (b ++ (text ++ rest)) = some ((), text ++ rest) := by
  obtain ⟨c, more, rfl, hc⟩ := ht
  exact blanks_append hb (isSolid_of_opensItem hc) _

/-- A key, a colon and a value. -/
theorem takes_keyed {key value : Reader Unit} {e : Entry} (hs : e.Spaced)
    (hk : Takes key () e.key) (hv : Takes value () e.value) (ho : Opens e.value) :
    Takes (keyed key value) () e.text := by
  intro tail ht
  obtain ⟨left, hl, hb⟩ := hk _
    (show Ends (e.before ++ ':' :: (e.after ++ (e.value ++ tail))) from
      .mk hs.before (by decide))
  rw [blanks_append hs.before (by decide)] at hb
  obtain ⟨left', hl', hb'⟩ := hv tail ht
  refine ⟨left', ?_, hb'⟩
  have htext : e.text ++ tail =
      e.key ++ (e.before ++ ':' :: (e.after ++ (e.value ++ tail))) := by
    simp [Entry.text]
  rw [htext, keyed, bind_some hl, bind_some hb, bind_some (require_head ':' _),
    bind_some (blanks_opens hs.after ho tail), hl']

variable {element : Reader Unit} {close : Char} {n : Nat}

theorem elements_congr {cs cs' : List Char} {hadComma : Bool} (h : blanks cs = blanks cs') :
    elements close element (n + 1) hadComma cs = elements close element (n + 1) hadComma cs' := by
  rw [elements, bind_apply, bind_apply, h]

theorem elements_close (hc : closes close = true) {hadComma : Bool} (hb : Blank b)
    (rest : List Char) : elements close element (n + 1) hadComma (b ++ close :: rest) =
      some ((), close :: rest) := by
  rw [elements, bind_some (blanks_append hb (isSolid_of_closes hc) rest),
    bind_some (ahead_head close rest)]
  rfl

/-- One item is read, and what comes behind its comma after that. -/
theorem elements_item (hc : closes close = true) {item tail left : List Char} {more : Bool}
    (hb : Blank b) (ho : Opens item) (hi : Takes element () item) (ht : Ends tail)
    (hcomma : comma tail = some (more, left)) :
    elements close element (n + 1) true (b ++ (item ++ tail)) =
      elements close element n more left := by
  obtain ⟨left', hl, hb'⟩ := hi tail ht
  have hahead : ahead [close] (item ++ tail) = some (false, item ++ tail) := by
    obtain ⟨d, item, rfl, hd⟩ := ho
    refine ahead_other ?_
    rintro rfl
    exact Bool.false_ne_true ((closes_of_opensItem hd).symm.trans hc)
  rw [elements, bind_some (blanks_opens hb ho tail), bind_some hahead]
  simp only [Bool.false_eq_true, if_false, if_true]
  rw [bind_some hl, bind_some ((comma_congr hb').trans hcomma)]

/-- The items are read one after the other, each with the comma behind it. -/
theorem elements_items {items : List (List Char)} (h : Items items text)
    (hc : closes close = true) (hcomma : close ≠ ',') (ho : ∀ i ∈ items, Opens i)
    (hi : ∀ i ∈ items, Takes element () i) (hn : items.length < n) {hadComma : Bool}
    (hhad : items ≠ [] → hadComma = true) (rest : List Char) :
    elements close element n hadComma (text ++ close :: rest) = some ((), close :: rest) := by
  induction items generalizing n text hadComma with
  | nil =>
    obtain ⟨n, rfl⟩ := Nat.exists_eq_add_one.mpr hn
    cases h with
    | nil hb => exact elements_close hc hb rest
  | cons item items ih =>
    obtain ⟨n, rfl⟩ : ∃ k, n = k + 2 := ⟨n - 2, by simp at hn; omega⟩
    have ho' : ∀ i ∈ items, Opens i := fun i hi => ho i (by simp [hi])
    obtain ⟨b, tail, more, left, text', hb, heq, ht, hleft, hmore, hitems, hsame⟩ :=
      h.uncons ho' hc hcomma rest
    rw [hhad (List.cons_ne_nil _ _), heq, elements_item hc hb (ho item (by simp))
      (hi item (by simp)) ht hleft, elements_congr hsame]
    exact ih hitems ho' (fun i h => hi i (by simp [h])) (by simp at hn; omega) hmore

end Reader

end Sequencer.Text
