import Sequencer.Proofs.Activation.Live

/-!
# Plays with a step of a sequence that is ticking

What a play needs and what it leaves behind, as conditions on the progress in its hands and on the
journal. Others may do anything in between, but as long as the sequence is ticking they keep off
its steps; so what a condition says of their phases survives whatever callbacks do.
-/

set_option autoImplicit false

namespace Sequencer

open Site (Nowhere Within Below)

structure Playing (id : Nat) (s : Stage) : Prop where
  sound : s.Sound
  ticking : (s.sequence id).ticking = true

theorem Stage.Sound.playing {s : Stage} (hs : s.Sound) {id : Nat} (hid : id < s.sequences.length) :
    Playing id (s.lending id) := ⟨hs.lending id, by rw [s.sequence_lending_self hid]⟩

/-- While others keep to `own` sites of a sequence that is ticking, it goes on ticking. -/
theorem Play.Follows.playing {π α : Type} {own : Site → Prop} {x : Play π α} (h : x.Follows own)
    {id : Nat} {p q : π} {s t : Stage} {r : Except Halt α} (hs : Playing id s)
    (hx : x (p, s) = (r, q, t)) : Playing id t ∧ ∃ l, t.journal = l ++ s.journal ∧
      ∀ e ∈ l, ∀ σ, e.site? = some σ → σ.root = some id → own σ := by
  have hl := h (p, s)
  rw [hx] at hl
  obtain ⟨ht, he⟩ := hl.lasts hs.sound
  obtain ⟨l, hj, hspares⟩ := he.journal
  refine ⟨⟨ht, (he.ticking id).trans hs.ticking⟩, l, hj, fun e hel σ hσ hr => ?_⟩
  have hsp := hspares id hs.ticking e hel
  cases e with
  | called τ c =>
    obtain rfl := Option.some.inj hσ
    exact hsp hr
  | returned τ c =>
    obtain rfl := Option.some.inj hσ
    exact hsp hr
  | _ => exact absurd hσ (by simp [Entry.site?])

def Play.Meets {π α : Type} (steps : Site → Option (Step Command)) (id : Nat)
    (P : π → List Entry → Prop) (x : Play π α) (Q : α → π → List Entry → Prop) : Prop :=
  ∀ p s, Playing id s → P p s.journal → ∀ a q t, x (p, s) = (.ok a, q, t) →
    Playing id t ∧ Q a q t.journal ∧
      ∃ l, t.journal = l ++ s.journal ∧ Lawful steps (fun σ => σ.root = some id) l s.journal

namespace Play.Meets

variable {π σ α β : Type} {steps : Site → Option (Step Command)} {id : Nat}
  {P : π → List Entry → Prop} {Q : α → π → List Entry → Prop} {R : β → π → List Entry → Prop}

/-- A play that is quiet about the sequence. -/
theorem of_quiet {x : Play π α} (hx : x.Follows Nowhere)
    (h : ∀ p s a q t, x (p, s) = (.ok a, q, t) → phases id t.journal = phases id s.journal →
      P p s.journal → Q a q t.journal) : Meets steps id P x Q := by
  intro p s hs hp a q t ht
  obtain ⟨hplaying, l, hl, hown⟩ := hx.playing hs ht
  refine ⟨hplaying, h p s a q t ht ?_ hp, l, hl, .of_silent hown⟩
  rw [hl]
  exact phases_append_foreign hown _

theorem pure (a : α) (h : ∀ p j, P p j → Q a p j) : Meets steps id P (pure a) Q := by
  intro p s hs hp b q t ht
  obtain ⟨hb, hqt⟩ := Prod.mk.inj ht
  obtain rfl := Except.ok.inj hb
  obtain ⟨rfl, rfl⟩ := Prod.mk.inj hqt
  exact ⟨hs, h p _ hp, [], rfl, trivial⟩

theorem bind {x : Play π α} {f : α → Play π β} (hx : Meets steps id P x Q)
    (hf : ∀ a, Meets steps id (Q a) (f a) R) : Meets steps id P (x >>= f) R := by
  intro p s hs hp b q t ht
  rw [Play.bind_apply] at ht
  rcases hr : x (p, s) with ⟨e | a, p', s'⟩ <;> rw [hr] at ht
  · exact absurd (congrArg Prod.fst ht) (by simp)
  · obtain ⟨hs', hq, l, hl, hlaw⟩ := hx p s hs hp a p' s' hr
    obtain ⟨hplaying, hr, l', hl', hlaw'⟩ := hf a p' s' hs' hq b q t ht
    refine ⟨hplaying, hr, l' ++ l, by rw [hl', hl, List.append_assoc], hlaw.append ?_⟩
    rw [← hl]
    exact hlaw'

theorem mono {x : Play π α} {P' : π → List Entry → Prop} {Q' : α → π → List Entry → Prop}
    (h : Meets steps id P x Q) (hP : ∀ p j, P' p j → P p j)
    (hQ : ∀ a p j, Q a p j → Q' a p j) : Meets steps id P' x Q' := by
  intro p s hs hp a q t ht
  obtain ⟨hplaying, hq, hl⟩ := h p s hs (hP p _ hp) a q t ht
  exact ⟨hplaying, hQ a q _ hq, hl⟩

/-- What is needed may be used to see how the play goes. -/
theorem know {x : Play π α} {F : Prop} (hF : ∀ p j, P p j → F) (h : F → Meets steps id P x Q) :
    Meets steps id P x Q := fun p s hs hp => h (hF p _ hp) p s hs hp

theorem read {f : π → Play π β} (h : ∀ p, Meets steps id (fun q j => q = p ∧ P q j) (f p) R) :
    Meets steps id P (Play.read >>= f) R :=
  fun p s hs hp => h p p s hs ⟨rfl, hp⟩

theorem change {f : π → π} {Q : π → List Entry → Prop} (h : ∀ p j, P p j → Q (f p) j) :
    Meets steps id P (Play.change f) (fun _ => Q) := by
  intro p s hs hp a q t ht
  obtain ⟨-, hqt⟩ := Prod.mk.inj ht
  obtain ⟨rfl, rfl⟩ := Prod.mk.inj hqt
  exact ⟨hs, h p _ hp, [], rfl, trivial⟩

theorem note {e : Entry} {Q : π → List Entry → Prop}
    (h : ∀ p j, P p j → (∀ σ, e.site? = some σ → e.Allowed steps j) ∧ Q p (e :: j)) :
    Meets steps id P (Play.note e) (fun _ => Q) := by
  intro p s hs hp a q t ht
  obtain ⟨-, hqt⟩ := Prod.mk.inj ht
  obtain ⟨rfl, rfl⟩ := Prod.mk.inj hqt
  obtain ⟨he, hq⟩ := h p _ hp
  exact ⟨⟨hs.sound.note e, hs.ticking⟩, hq, [e], rfl, fun σ hσ _ => he σ hσ, trivial⟩

theorem ite {c : Prop} [Decidable c] {x y : Play π α} (hx : c → Meets steps id P x Q)
    (hy : ¬ c → Meets steps id P y Q) : Meets steps id P (if c then x else y) Q := by
  by_cases hc : c
  · rw [if_pos hc]
    exact hx hc
  · rw [if_neg hc]
    exact hy hc

/-- A play on a part, given what it makes of each whole that the part may belong to. -/
theorem part {get : σ → π} {put : π → σ → σ} {x : Play π α} {P : σ → List Entry → Prop}
    {Q : α → σ → List Entry → Prop}
    (h : ∀ a, Meets steps id (fun p j => p = get a ∧ P a j) x fun v p j => Q v (put p a) j) :
    Meets steps id P (Play.part get put x) Q := by
  intro a s hs ha v b t ht
  obtain ⟨hv, hbt⟩ := Prod.mk.inj ht
  obtain ⟨rfl, rfl⟩ := Prod.mk.inj hbt
  exact h a (get a) s hs ⟨rfl, ha⟩ v _ _ (Prod.ext hv rfl)

theorem first {x : Play π α} {P : π × σ → List Entry → Prop} {Q : α → π × σ → List Entry → Prop}
    (h : ∀ a, Meets steps id (fun p j => p = a.1 ∧ P a j) x fun v p j => Q v (p, a.2) j) :
    Meets steps id P (Play.first x) Q := part h

theorem second {x : Play π α} {P : σ × π → List Entry → Prop} {Q : α → σ × π → List Entry → Prop}
    (h : ∀ a, Meets steps id (fun p j => p = a.2 ∧ P a j) x fun v p j => Q v (a.1, p) j) :
    Meets steps id P (Play.second x) Q := part h

/-- An act that is quiet about the sequence leaves the progress alone. -/
theorem onStage {act : Act α} (hact : act.Follows Nowhere) (A : π → Phases → Prop) :
    Meets steps id (fun p j => A p (phases id j)) (Play.onStage act)
      fun _ p j => A p (phases id j) := by
  apply of_quiet (.onStage hact)
  intro p s a q t ht hφ hp
  obtain rfl : p = q := congrArg (·.2.1) ht
  rw [hφ]
  exact hp

theorem say (n : Notice) (A : π → Phases → Prop) :
    Meets steps id (fun p j => A p (phases id j)) (Play.say n) fun _ p j => A p (phases id j) :=
  onStage (.of_remarks (.say n)) A

theorem settings (A : π → Phases → Prop) : Meets steps id (fun p j => A p (phases id j))
    Play.settings fun _ p j => A p (phases id j) :=
  onStage (.of_remarks (.read _)) A

/-- What is known of the phases elsewhere survives a play that keeps to its own sites. -/
theorem frame {x : Play π α} {own : Site → Prop} (h : Meets steps id P x Q)
    (hx : x.Follows own) {B : Phases → Prop}
    (hB : ∀ φ ψ : Phases, (∀ τ, ¬ own τ → ψ τ = φ τ) → B φ → B ψ) :
    Meets steps id (fun p j => P p j ∧ B (phases id j)) x
      fun a p j => Q a p j ∧ B (phases id j) := by
  intro p s hs hp a q t ht
  obtain ⟨hplaying, hq, hl⟩ := h p s hs hp.1 a q t ht
  obtain ⟨-, l, hj, hown⟩ := hx.playing hs ht
  refine ⟨hplaying, ⟨hq, ?_⟩, hl⟩
  rw [hj]
  exact hB _ _ (fun τ hτ => phases_append hown hτ _) hp.2

end Play.Meets

def Resting {π : Type} (id : Nat) (σ : Site) (A : π → Phases → Prop) (p : π)
    (j : List Entry) : Prop := Rests σ (phases id j) ∧ A p (phases id j)

def Going {π : Type} (σ : Site) (A : π → Phases → Prop) (p : π) (φ : Phases) : Prop :=
  φ σ = .underway ∧ A p φ

def Play.Upholds {π α : Type} (steps : Site → Option (Step Command)) (id : Nat) (σ : Site)
    (A : π → Phases → Prop) (x : Play π α) : Prop :=
  x.Meets steps id (Resting id σ A) fun _ => Resting id σ A

namespace Play.Upholds

variable {π ρ α β : Type} {steps : Site → Option (Step Command)} {id : Nat} {σ : Site}
  {A : π → Phases → Prop} {B : ρ → Phases → Prop}

theorem pure (a : α) : Upholds steps id σ A (pure a) := Meets.pure a fun _ _ h => h

theorem bind {x : Play π α} {f : α → Play π β} (hx : Upholds steps id σ A x)
    (hf : ∀ a, Upholds steps id σ A (f a)) : Upholds steps id σ A (x >>= f) := Meets.bind hx hf

theorem readThen {f : π → Play π β} (h : ∀ p, Upholds steps id σ A (f p)) :
    Upholds steps id σ A (Play.read >>= f) := by
  apply Meets.read
  intro p
  apply (h p).mono
  · exact fun _ _ hq => hq.2
  · exact fun _ _ _ hq => hq

theorem change {f : π → π} (h : ∀ p φ, A p φ → A (f p) φ) :
    Upholds steps id σ A (Play.change f) := by
  apply Meets.change
  exact fun p j hp => ⟨hp.1, h p _ hp.2⟩

theorem onStage {act : Act α} (hact : act.Follows Nowhere) :
    Upholds steps id σ A (Play.onStage act) := Meets.onStage hact fun p φ => Rests σ φ ∧ A p φ

theorem say (n : Notice) : Upholds steps id σ A (Play.say n) := onStage (.of_remarks (.say n))

theorem ite {c : Prop} [Decidable c] {x y : Play π α} (hx : Upholds steps id σ A x)
    (hy : Upholds steps id σ A y) : Upholds steps id σ A (if c then x else y) :=
  Meets.ite (fun _ => hx) fun _ => hy

/-- A play on a part of which `A` is right, of a whole of which `B` is. -/
theorem part {get : ρ → π} {put : π → ρ → ρ} {x : Play π α} (hget : ∀ a φ, B a φ → A (get a) φ)
    (hput : ∀ a p φ, A p φ → B (put p a) φ) (h : Upholds steps id σ A x) :
    Upholds steps id σ B (Play.part get put x) := by
  apply Meets.part
  intro a
  apply Meets.mono h
  · rintro p j ⟨rfl, hr, hb⟩
    exact ⟨hr, hget a _ hb⟩
  · exact fun v p j hp => ⟨hp.1, hput a p _ hp.2⟩

end Play.Upholds

end Sequencer
