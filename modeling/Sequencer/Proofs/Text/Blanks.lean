import Sequencer.Proofs.Text.Delimited

/-!
# Blanks are skipped

What may stand between two tokens: white space, comments to the end of a line and block comments,
in any number and order. Skipping them leaves the text from the next token on.
-/

set_option autoImplicit false

namespace Sequencer.Text

inductive Blank : List Char → Prop
  | nil : Blank []
  | white {c : Char} {b : List Char} : isBlank c = true → Blank b → Blank (c :: b)
  | line {s b : List Char} : '\n' ∉ s → Blank b → Blank ('/' :: '/' :: (s ++ '\n' :: b))
  | block {s b : List Char} : afterBlock 1 s = some [] → Blank b → Blank ('/' :: '*' :: (s ++ b))

inductive LastBlank : List Char → Prop
  | blank {b : List Char} : Blank b → LastBlank b
  | line {b s : List Char} : Blank b → '\n' ∉ s → LastBlank (b ++ '/' :: '/' :: s)

inductive Comma : Bool → List Char → Prop
  | none {b : List Char} : Blank b → Comma false b
  | some {b b' : List Char} : Blank b → Blank b' → Comma true (b ++ ',' :: b')

variable {c : Char} {b rest : List Char} {n : Nat}

/-- A comment that is closed is closed there, whatever comes behind it. -/
theorem afterBlock_append {level : Nat} {s left : List Char} (h : afterBlock level s = some left)
    (rest : List Char) : afterBlock level (s ++ rest) = some (left ++ rest) := by
  fun_induction afterBlock level s with
  | case1 => cases h
  | case2 level s ih => simpa [afterBlock] using ih h
  | case3 level s hle =>
    obtain rfl := Option.some.inj h
    simp [afterBlock, hle]
  | case4 level s hle ih => simpa [afterBlock, hle] using ih h
  | case5 level c s hopen hclose ih =>
    -- A text of one character closes nothing, so the next one is there to be looked at.
    cases s with
    | nil => simp [afterBlock] at h
    | cons d s =>
      rw [List.cons_append, afterBlock]
      · exact ih h
      · rintro s' rfl hs
        obtain ⟨rfl, -⟩ := List.cons.inj hs
        exact hopen s rfl rfl
      · rintro s' rfl hs
        obtain ⟨rfl, -⟩ := List.cons.inj hs
        exact hclose s rfl rfl

theorem afterBlanks_white (h : isBlank c = true) (cs : List Char) :
    afterBlanks (n + 1) (c :: cs) = afterBlanks (n + 1) cs := by
  simp [afterBlanks, h]

theorem afterBlanks_line {s : List Char} (h : '\n' ∉ s) (cs : List Char) :
    afterBlanks (n + 1) ('/' :: '/' :: (s ++ cs)) = afterBlanks n (cs.dropWhile (· ≠ '\n')) := by
  have hall : ∀ d ∈ s, decide (d ≠ '\n') = true := by
    intro d hd
    exact decide_eq_true fun he => h (he ▸ hd)
  have hslash : isBlank '/' = false := by decide
  simp only [afterBlanks, List.dropWhile_cons, hslash, Bool.false_eq_true, if_false]
  rw [List.dropWhile_append_of_pos hall]

theorem afterBlanks_block {s : List Char} (h : afterBlock 1 s = some []) (cs : List Char) :
    afterBlanks (n + 1) ('/' :: '*' :: (s ++ cs)) = afterBlanks n cs := by
  have hslash : isBlank '/' = false := by decide
  simp only [afterBlanks, List.dropWhile_cons, hslash, Bool.false_eq_true, if_false]
  rw [afterBlock_append h]
  rfl

/-- As many characters as a blank has are more than enough steps to skip it. -/
theorem Blank.afterBlanks (h : Blank b) (k : Nat) (cs : List Char) :
    ∃ m, k ≤ m ∧ afterBlanks (b.length + k + 1) (b ++ cs) = afterBlanks (m + 1) cs := by
  induction h generalizing k with
  | nil => exact ⟨k, Nat.le_refl k, by simp⟩
  | @white c b hc _ ih =>
    obtain ⟨m, hm, h⟩ := ih (k + 1)
    refine ⟨m, by omega, ?_⟩
    rw [List.cons_append, afterBlanks_white hc, ← h, List.length_cons]
    congr 1
    omega
  | @line s b hs _ ih =>
    obtain ⟨m, hm, h⟩ := ih (s.length + k + 2)
    refine ⟨m, by omega, ?_⟩
    have hlen : ('/' :: '/' :: (s ++ '\n' :: b)).length + k + 1 =
        b.length + (s.length + k + 2) + 1 + 1 := by
      simp
      omega
    have hend : ('\n' :: (b ++ cs)).dropWhile (· ≠ '\n') = '\n' :: (b ++ cs) := by simp
    rw [hlen, List.cons_append, List.cons_append, List.append_assoc, afterBlanks_line hs,
      List.cons_append, hend, afterBlanks_white (by decide), h]
  | @block s b hs _ ih =>
    obtain ⟨m, hm, h⟩ := ih (s.length + k + 1)
    refine ⟨m, by omega, ?_⟩
    have hlen : ('/' :: '*' :: (s ++ b)).length + k + 1 =
        b.length + (s.length + k + 1) + 1 + 1 := by
      simp
      omega
    rw [hlen, List.cons_append, List.cons_append, List.append_assoc, afterBlanks_block hs, h]

namespace Reader

theorem blanks_apply (cs : List Char) :
    blanks cs = (afterBlanks (cs.length + 1) cs).map fun rest => ((), rest) := rfl

/-- Skipping stops before the first character of a token. -/
theorem blanks_append (hb : Blank b) (hc : isSolid c = true) (rest : List Char) :
    blanks (b ++ c :: rest) = some ((), c :: rest) := by
  obtain ⟨hblank, hslash⟩ : isBlank c = false ∧ c ≠ '/' := by simpa [isSolid] using hc
  obtain ⟨m, -, h⟩ := hb.afterBlanks (c :: rest).length (c :: rest)
  rw [blanks_apply, List.length_append, h]
  simp [Text.afterBlanks, hblank, hslash]

/-- At the end of a text everything is skipped. -/
theorem blanks_last (h : LastBlank b) : blanks b = some ((), []) := by
  cases h with
  | blank hb =>
    obtain ⟨m, -, h⟩ := hb.afterBlanks 0 []
    rw [List.append_nil] at h
    rw [blanks_apply, h]
    rfl
  | @line b s hb hs =>
    obtain ⟨m, hm, h⟩ := hb.afterBlanks ('/' :: '/' :: s).length ('/' :: '/' :: s)
    obtain ⟨m, rfl⟩ : ∃ k, m = k + 1 := Nat.exists_eq_add_one.mpr (by simp at hm; omega)
    have hend := afterBlanks_line (n := m + 1) hs []
    rw [List.append_nil] at hend
    rw [blanks_apply, List.length_append, h, hend]
    rfl

/-- A comma or none, with the blanks around it. -/
theorem comma_append {some? : Bool} (hb : Comma some? b) (hc : isSolid c = true) (hne : c ≠ ',')
    (rest : List Char) : comma (b ++ c :: rest) = some (some?, c :: rest) := by
  cases hb with
  | none hb =>
    rw [comma, bind_some (blanks_append hb hc rest), bind_some (accept_other (by
      simp [List.isPrefixOf, Ne.symm hne]))]
    rfl
  | @some b b' hb hb' =>
    rw [List.append_assoc, List.cons_append, comma,
      bind_some (blanks_append hb (by decide) _), bind_some (accept_head ',' _), if_pos rfl,
      bind_some (blanks_append hb' hc rest)]
    rfl

end Reader

end Sequencer.Text
