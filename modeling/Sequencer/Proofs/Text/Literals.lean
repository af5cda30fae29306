import Sequencer.Proofs.Text.Quoting

/-!
# Quoted literals are read

Strings, characters and bytes between quotes, with every escape there is, and raw strings between
hash signs. Each literal says itself where it ends, so it is read whatever comes behind it.
-/

set_option autoImplicit false

namespace Sequencer.Text

open Reader

inductive Encoded : Nat → List Nat → Char → List Char → Prop
  | done {n : Nat} {bytes : List Nat} {c : Char} : ofBytes? bytes = some c →
      Encoded (n + 1) bytes c []
  | more {n i j : Nat} {bytes : List Nat} {c high low : Char} {text : List Char} :
      ofBytes? bytes = none → hexDigit? high = some i → hexDigit? low = some j →
      Encoded n (bytes ++ [i * 16 + j]) c text →
      Encoded (n + 1) bytes c ('\\' :: 'x' :: high :: low :: text)

inductive Escape (bytesOnly : Bool) (bytes : Nat) : Char → List Char → Prop
  | letter {c letter : Char} : (c, letter) ∈ named → Escape bytesOnly bytes c [letter]
  | byte {i j : Nat} {high low : Char} : bytesOnly = true → hexDigit? high = some i →
      hexDigit? low = some j → Escape bytesOnly bytes (Char.ofNat (i * 16 + j)) ['x', high, low]
  | encoded {i j : Nat} {c high low : Char} {text : List Char} : bytesOnly = false →
      hexDigit? high = some i → hexDigit? low = some j → Encoded bytes [i * 16 + j] c text →
      Escape bytesOnly bytes c ('x' :: high :: low :: text)
  | codePoint {n : Nat} {c : Char} {digits : List Char} : digits ≠ [] → digits.length ≤ 6 →
      ofDigits 16 digits 0 = some n → ofCodePoint? n = some c →
      Escape bytesOnly bytes c ('u' :: '\x7b' :: (digits ++ ['\x7d']))

inductive Body (bytesOnly : Bool) : List Char → Prop
  | nil : Body bytesOnly []
  | plain {c : Char} {text : List Char} : c ≠ '"' → c ≠ '\\' → Body bytesOnly text →
      Body bytesOnly (c :: text)
  | escape {c : Char} {form text : List Char} : Escape bytesOnly 4 c form →
      Body bytesOnly text → Body bytesOnly ('\\' :: (form ++ text))

inductive Raw : List Char → Prop
  | mk {n : Nat} {text : List Char} : ¬ ('"' :: List.replicate n '#') <:+: text →
      Raw (List.replicate n '#' ++ '"' :: (text ++ '"' :: List.replicate n '#'))

inductive Single (bytesOnly : Bool) : List Char → Prop
  | plain {c : Char} : c ≠ '\'' → c ≠ '\\' → (bytesOnly = true → c.toNat < 0x80) →
      Single bytesOnly [c]
  | escape {c : Char} {form : List Char} : Escape bytesOnly 1 c form →
      (bytesOnly = true → form.head? ≠ some 'u') → Single bytesOnly ('\\' :: form)

inductive Quoted : List Char → Prop
  | string {text : List Char} : Body false text → Quoted ('"' :: (text ++ ['"']))
  | byteString {text : List Char} : Body true text → Quoted ('b' :: '"' :: (text ++ ['"']))
  | rawString {text : List Char} : Raw text → Quoted ('r' :: text)
  | rawByteString {text : List Char} : Raw text → Quoted ('b' :: 'r' :: text)
  | char {text : List Char} : Single false text → Quoted ('\'' :: (text ++ ['\'']))
  | byteChar {text : List Char} : Single true text → Quoted ('b' :: '\'' :: (text ++ ['\'']))

variable {bytesOnly : Bool} {bytes n : Nat} {c : Char} {form text rest : List Char}

theorem Escape.head (h : Escape bytesOnly bytes c form) : ∃ d more, form = d :: more := by
  cases h <;> exact ⟨_, _, rfl⟩

namespace Reader

theorem hexByte_cons {i j : Nat} {high low : Char} (hi : hexDigit? high = some i)
    (hj : hexDigit? low = some j) (rest : List Char) :
    hexByte (high :: low :: rest) = some (i * 16 + j, rest) := by
  rw [hexByte, bind_some (hexDigit_cons hi _), bind_some (hexDigit_cons hj _)]
  rfl

theorem encoded_append {bs : List Nat} (h : Encoded n bs c text) (rest : List Char) :
    encoded n bs (text ++ rest) = some (c, rest) := by
  induction h with
  | done hc => simp [encoded, hc]
  | more hnone hi hj _ ih =>
    simp only [encoded, hnone, List.cons_append]
    rw [bind_some (require_pair '\\' 'x' _), bind_some (hexByte_cons hi hj _), ih]

theorem afterBackslash_append (h : Escape bytesOnly bytes c form) (rest : List Char) :
    afterBackslash bytesOnly bytes (form ++ rest) = some (c, rest) := by
  cases h with
  | letter hc => exact afterBackslash_named hc rest
  | byte hb hi hj =>
    rw [afterBackslash, List.cons_append, bind_some (next_cons 'x' _)]
    show (do let b ← hexByte; _ : Reader Char) _ = _
    rw [List.cons_append, List.cons_append, bind_some (hexByte_cons hi hj _), if_pos hb]
    rfl
  | encoded hb hi hj hc =>
    rw [afterBackslash, List.cons_append, bind_some (next_cons 'x' _)]
    show (do let b ← hexByte; _ : Reader Char) _ = _
    rw [List.cons_append, List.cons_append, bind_some (hexByte_cons hi hj _), hb]
    exact encoded_append hc rest
  | codePoint hne hlen hn hc =>
    rw [afterBackslash, List.cons_append, bind_some (next_cons 'u' _)]
    show (do require ['\x7b']; _ : Reader Char) _ = _
    rw [List.cons_append, bind_some (require_head '\x7b' _), List.append_assoc,
      List.singleton_append, bind_some (braced_append hn hlen (by
        have := List.length_pos_iff.mpr hne
        omega) rest), hc]
    rfl

theorem stringBody_append (h : Body bytesOnly text) (hn : text.length < n) (rest : List Char) :
    ∃ cs, stringBody bytesOnly n (text ++ '"' :: rest) = some (cs, rest) := by
  induction h generalizing n with
  | nil =>
    obtain ⟨n, rfl⟩ := Nat.exists_eq_add_one.mpr hn
    exact ⟨[], rfl⟩
  | @plain c text hquote hslash _ ih =>
    obtain ⟨n, rfl⟩ : ∃ k, n = k + 1 := Nat.exists_eq_add_one.mpr (by omega)
    obtain ⟨cs, hcs⟩ := ih (n := n) (by simpa using hn)
    refine ⟨c :: cs, ?_⟩
    rw [stringBody, List.cons_append, bind_some (next_cons c _)]
    split
    · exact absurd rfl hquote
    · exact absurd rfl hslash
    · rw [bind_some hcs]
      rfl
  | @escape c form text hc _ ih =>
    obtain ⟨n, rfl⟩ : ∃ k, n = k + 1 := Nat.exists_eq_add_one.mpr (by omega)
    obtain ⟨cs, hcs⟩ := ih (n := n) (by simp at hn; omega)
    refine ⟨c :: cs, ?_⟩
    rw [stringBody, List.cons_append, bind_some (next_cons '\\' _)]
    show (do let c ← afterBackslash bytesOnly 4; return c :: (← stringBody bytesOnly n)) _ = _
    rw [List.append_assoc, bind_some (afterBackslash_append hc _), bind_some hcs]
    rfl

/-- The closing sequence begins with a quote and goes on with hash signs, so it does not begin
inside the text and end behind it. -/
theorem upTo_append (h : ¬ ('"' :: List.replicate n '#') <:+: text) (rest : List Char) :
    upTo ('"' :: List.replicate n '#') (text ++ '"' :: (List.replicate n '#' ++ rest)) =
      some (text, rest) := by
  induction text with
  | nil =>
    have hp : ('"' :: List.replicate n '#').isPrefixOf
        ('"' :: (List.replicate n '#' ++ rest)) = true :=
      List.isPrefixOf_iff_prefix.mpr ⟨rest, rfl⟩
    rw [List.nil_append, upTo, if_pos hp, ← List.cons_append, List.drop_left]
  | cons c text ih =>
    have hno : ('"' :: List.replicate n '#').isPrefixOf
        (c :: (text ++ '"' :: (List.replicate n '#' ++ rest))) = false := by
      rw [Bool.eq_false_iff, ne_eq, List.isPrefixOf_iff_prefix, List.cons_prefix_cons]
      rintro ⟨rfl, hp⟩
      have hq : text ++ ['"'] <+: text ++ '"' :: (List.replicate n '#' ++ rest) :=
        ⟨List.replicate n '#' ++ rest, by simp⟩
      rcases List.prefix_or_prefix_of_prefix hp hq with h' | h'
      · rcases List.prefix_concat_iff.mp h' with heq | h'
        · have hmem : '"' ∈ List.replicate n '#' := heq ▸ by simp
          simp at hmem
        · exact h (List.cons_prefix_cons.mpr ⟨rfl, h'⟩).isInfix
      · have hmem : '"' ∈ List.replicate n '#' := h'.subset (by simp)
        simp at hmem
    rw [List.cons_append, upTo, if_neg (by simp [hno]), ih fun hi => h (List.infix_cons hi)]
    rfl

theorem rawBody_append (h : Raw text) (rest : List Char) :
    ∃ cs, rawBody (text ++ rest) = some (cs, rest) := by
  cases h with
  | @mk n text h =>
    refine ⟨text, ?_⟩
    have htake : takeWhile (· = '#')
        (List.replicate n '#' ++ '"' :: (text ++ '"' :: (List.replicate n '#' ++ rest))) =
        some (List.replicate n '#', '"' :: (text ++ '"' :: (List.replicate n '#' ++ rest))) :=
      takeWhile_append (by simp) (by decide) _
    simp only [List.append_assoc, List.cons_append]
    rw [rawBody, bind_some htake, bind_some (require_head '"' _)]
    exact upTo_append h rest

theorem string_append (h : Body false text) (rest : List Char) :
    ∃ cs, string ('"' :: (text ++ '"' :: rest)) = some (cs, rest) := by
  obtain ⟨cs, hcs⟩ := stringBody_append h (n := (text ++ '"' :: rest).length) (by simp) rest
  refine ⟨cs, ?_⟩
  rw [string, bind_some (accept_head '"' _), if_pos rfl, bind_some (left_apply _), hcs]

theorem byteString_append (h : Body true text) (rest : List Char) :
    ∃ cs, byteString ('b' :: '"' :: (text ++ '"' :: rest)) = some (cs, rest) := by
  obtain ⟨cs, hcs⟩ := stringBody_append h (n := (text ++ '"' :: rest).length) (by simp) rest
  refine ⟨cs, ?_⟩
  rw [byteString, bind_some (accept_pair 'b' '"' _), if_pos rfl, bind_some (left_apply _), hcs]

theorem rawString_append (h : Raw text) (rest : List Char) :
    ∃ cs, string ('r' :: (text ++ rest)) = some (cs, rest) := by
  obtain ⟨cs, hcs⟩ := rawBody_append h rest
  refine ⟨cs, ?_⟩
  rw [string, bind_some (accept_other rfl)]
  simp only [Bool.false_eq_true, if_false]
  rw [bind_some (require_head 'r' _), hcs]

theorem rawByteString_append (h : Raw text) (rest : List Char) :
    ∃ cs, byteString ('b' :: 'r' :: (text ++ rest)) = some (cs, rest) := by
  obtain ⟨cs, hcs⟩ := rawBody_append h rest
  refine ⟨cs, ?_⟩
  rw [byteString, bind_some (accept_other rfl)]
  simp only [Bool.false_eq_true, if_false]
  rw [bind_some (require_pair 'b' 'r' _), hcs]

theorem quotedChar_append (h : Single false text) (rest : List Char) :
    ∃ c, quotedChar ('\'' :: (text ++ '\'' :: rest)) = some (c, rest) := by
  cases h with
  | @plain c hquote hslash _ =>
    refine ⟨c, ?_⟩
    rw [quotedChar, bind_some (require_head '\'' _), List.singleton_append,
      bind_some (next_cons c _)]
    simp only [if_neg hslash, pure_bind]
    rw [bind_some (require_head '\'' _)]
    rfl
  | @escape c form hc _ =>
    refine ⟨c, ?_⟩
    rw [quotedChar, bind_some (require_head '\'' _), List.cons_append,
      bind_some (next_cons '\\' _)]
    simp only [if_true]
    rw [bind_some (afterBackslash_append hc _), bind_some (require_head '\'' _)]
    rfl

theorem byteChar_append (h : Single true text) (rest : List Char) :
    ∃ c, byteChar ('b' :: '\'' :: (text ++ '\'' :: rest)) = some (c, rest) := by
  cases h with
  | @plain c hquote hslash hbyte =>
    refine ⟨c, ?_⟩
    rw [byteChar, bind_some (require_pair 'b' '\'' _), List.singleton_append,
      bind_some (next_cons c _)]
    simp only [if_neg hslash, if_pos (hbyte rfl), pure_bind]
    rw [bind_some (require_head '\'' _)]
    rfl
  | @escape c form hc hu =>
    refine ⟨c, ?_⟩
    obtain ⟨d, more, rfl⟩ := hc.head
    have hahead : ahead ['u'] (d :: more ++ '\'' :: rest) =
        some (false, d :: more ++ '\'' :: rest) := by
      refine ahead_other ?_
      rintro rfl
      exact hu rfl rfl
    rw [byteChar, bind_some (require_pair 'b' '\'' _), List.cons_append,
      bind_some (next_cons '\\' _)]
    simp only [if_true, bind_assoc]
    rw [bind_some hahead]
    simp only [Bool.false_eq_true, if_false]
    rw [bind_some (afterBackslash_append hc _), bind_some (require_head '\'' _)]
    rfl

end Reader

end Sequencer.Text
