import Sequencer.Proofs.Activation.Meets

/-!
# One call of a step

A step may be entered if it rests, ticked if it is under way, and exited if it has settled or is
cut short. Given what its own plays need and leave, this is what entering, ticking and exiting it
needs and leaves, and what driving it does.
-/

set_option autoImplicit false

namespace Sequencer

open Site (Nowhere Within Below)

section

variable {id : Nat} {σ : Site} {j : List Entry}

theorem sameBelow_cons {e : Entry} (h : e.site? = some σ) (j : List Entry) :
    SameBelow σ (phases id j) (phases id (e :: j)) := by
  intro τ hτ
  apply phases_cons_ne
  rw [h]
  intro hστ
  obtain rfl := Option.some.inj hστ
  exact Site.not_below_self σ hτ

end

/-- A play that keeps to one site below another one, and brings that to rest, brings everything
below the other one to rest. -/
theorem Play.Meets.elsewhere {π α : Type} {steps : Site → Option (Step Command)} {id : Nat}
    {x : Play π α} {σ τ : Site} {P : π → List Entry → Prop} {B : α → π → Phases → Prop}
    (hx : x.Follows (Within τ)) (hP : ∀ p j, P p j → Rests σ (phases id j))
    (h : Meets steps id P x
      fun a p j => (phases id j τ).IsQuiet ∧ Rests τ (phases id j) ∧ B a p (phases id j)) :
    Meets steps id P x fun a p j => Rests σ (phases id j) ∧ B a p (phases id j) := by
  have hrest : ∀ φ ψ : Phases, (∀ υ, ¬ τ.Within υ → ψ υ = φ υ) →
      (∀ υ, σ.Below υ → ¬ τ.Within υ → (φ υ).IsQuiet) →
      ∀ υ, σ.Below υ → ¬ τ.Within υ → (ψ υ).IsQuiet := by
    intro φ ψ hs hφ υ hυ hτυ
    rw [hs υ hτυ]
    exact hφ υ hυ hτυ
  apply (h.frame hx hrest).mono
  · exact fun p j hp => ⟨hp, fun υ hυ _ => hP p j hp υ hυ⟩
  · rintro a p j ⟨⟨hq, hr, hb⟩, ho⟩
    refine ⟨fun υ hυ => ?_, hb⟩
    by_cases hτυ : τ.Within υ
    · rcases hτυ.eq_or_below with rfl | hτυ
      · exact hq
      · exact hr υ hτυ
    · exact ho υ hυ hτυ

namespace Cue

variable {π : Type} {steps : Site → Option (Step Command)} {id : Nat} {c : Cue}
  {L : π → Phases → Prop} {enter exit : Play π Unit} {tick : Play π Status} {dt : Float32}
  {source : Source} {label : String} {index : Nat} {fresh : Bool} {status : Status}

section

variable (hroot : c.site.root = some id)
  (hL : ∀ p φ ψ, SameBelow c.site φ ψ → L p φ → L p ψ)

include hroot hL

theorem enter_meets (hf : enter.Follows (Below c.site))
    (h : Play.Meets steps id (fun _ j => Rests c.site (phases id j)) enter
      fun _ => Resting id c.site L) :
    Play.Meets steps id
      (fun _ j => (phases id j c.site).IsQuiet ∧ Rests c.site (phases id j)) (c.enter enter)
      fun _ p j => phases id j c.site = .underway ∧ Resting id c.site L p j := by
  have hcall : Play.Meets steps id
      (fun (_ : π) j => (phases id j c.site).IsQuiet ∧ Rests c.site (phases id j))
      (Play.note (.called c.site .enter))
      fun _ _ j => Rests c.site (phases id j) ∧ phases id j c.site = .entering := by
    apply Play.Meets.note
    rintro p j ⟨hq, hr⟩
    refine ⟨fun τ hτ => ?_, hr.congr (sameBelow_cons rfl j), phases_called hroot _ j⟩
    rw [phases_root hroot] at hq
    exact hq
  have hbody := h.frame hf (B := fun φ => φ c.site = .entering)
    fun φ ψ hs hφ => (hs _ (Site.not_below_self _)).trans hφ
  apply hcall.bind
  intro _
  apply hbody.bind
  intro _
  apply Play.Meets.note
  rintro p j ⟨⟨hr, hl⟩, he⟩
  refine ⟨fun τ hτ => .inl (by rw [← phases_root hroot]; exact he), ?_,
    hr.congr (sameBelow_cons rfl j), hL _ _ _ (sameBelow_cons rfl j) hl⟩
  rw [phases_returned hroot, he]
  rfl

theorem tick_meets (hf : tick.Follows (Below c.site))
    (h : Play.Meets steps id
      (fun p j => phases id j c.site = .ticking ∧ Resting id c.site L p j)
      tick fun _ => Resting id c.site L) :
    Play.Meets steps id
      (fun p j => phases id j c.site = .underway ∧ Resting id c.site L p j)
      (c.tick dt tick)
      fun status p j => phases id j c.site = Phase.ended .ticking (some status) ∧
        Resting id c.site L p j := by
  have hcall : Play.Meets steps id
      (fun p j => phases id j c.site = .underway ∧ Resting id c.site L p j)
      (Play.note (.called c.site (.tick dt)))
      fun _ p j => (phases id j c.site = .ticking ∧ Resting id c.site L p j) ∧
        phases id j c.site = .ticking := by
    apply Play.Meets.note
    rintro p j ⟨hu, hr, hl⟩
    refine ⟨fun τ hτ => ?_, ⟨phases_called hroot _ j, hr.congr (sameBelow_cons rfl j),
      hL _ _ _ (sameBelow_cons rfl j) hl⟩, phases_called hroot _ j⟩
    rw [phases_root hroot] at hu
    exact hu
  have hbody := h.frame hf (B := fun φ => φ c.site = .ticking)
    fun φ ψ hs hφ => (hs _ (Site.not_below_self _)).trans hφ
  apply hcall.bind
  intro _
  apply hbody.bind
  intro status
  have hanswer : Play.Meets steps id
      (fun p j => Resting id c.site L p j ∧
        phases id j c.site = .ticking) (Play.note (.returned c.site (some status)))
      fun _ p j => phases id j c.site = Phase.ended .ticking (some status) ∧
        Resting id c.site L p j := by
    apply Play.Meets.note
    rintro p j ⟨⟨hr, hl⟩, ht⟩
    refine ⟨fun τ hτ => ?_, ?_, hr.congr (sameBelow_cons rfl j),
      hL _ _ _ (sameBelow_cons rfl j) hl⟩
    · rw [phases_root hroot] at ht
      exact ht
    · rw [phases_returned hroot, ht]
  exact hanswer.bind fun _ => .pure status fun _ _ h => h

end

/-- A step may be exited when it has settled, and when its time is cut short. -/
theorem exit_meets (hroot : c.site.root = some id) (hf : exit.Follows Nowhere)
    {P : π → List Entry → Prop}
    (hP : ∀ p j, P p j → (Entry.called c.site .exit).Allowed steps j ∧ Rests c.site (phases id j)) :
    Play.Meets steps id P (c.exit exit)
      fun _ _ j => phases id j c.site = .idle ∧ Rests c.site (phases id j) := by
  have hcall : Play.Meets steps id P (Play.note (.called c.site .exit))
      fun _ _ j => phases id j c.site = .leaving ∧ Rests c.site (phases id j) := by
    apply Play.Meets.note
    intro p j hp
    obtain ⟨ha, hr⟩ := hP p j hp
    refine ⟨fun τ hτ => ?_, phases_called hroot _ j, hr.congr (sameBelow_cons rfl j)⟩
    exact ha
  have hbody : Play.Meets steps id
      (fun _ j => phases id j c.site = .leaving ∧ Rests c.site (phases id j)) exit
      fun _ _ j => phases id j c.site = .leaving ∧ Rests c.site (phases id j) := by
    apply Play.Meets.of_quiet hf
    intro p s a q t _ hφ hp
    rw [hφ]
    exact hp
  apply hcall.bind
  intro _
  apply hbody.bind
  intro _
  apply Play.Meets.note
  rintro p j ⟨hl, hr⟩
  refine ⟨fun τ hτ => .inr (by rw [← phases_root hroot]; exact hl), ?_,
    hr.congr (sameBelow_cons rfl j)⟩
  rw [phases_returned hroot, hl]
  rfl

def Between (c : Cue) (id : Nat) (L : π → Phases → Prop) (going : Prop) (p : π)
    (j : List Entry) : Prop :=
  (phases id j c.site).IsQuiet ∧ Rests c.site (phases id j) ∧
    (going → phases id j c.site = .underway ∧ L p (phases id j))

section

variable (hroot : c.site.root = some id)
  (hL : ∀ p φ ψ, SameBelow c.site φ ψ → L p φ → L p ψ)

include hroot

include hL in
theorem openStep_meets (hf : enter.Follows (Below c.site))
    (h : Play.Meets steps id (fun _ j => Rests c.site (phases id j)) enter
      fun _ => Resting id c.site L) :
    Play.Meets steps id (c.Between id L (fresh = false))
      (c.openStep source label index fresh enter)
      fun _ p j => phases id j c.site = .underway ∧ Resting id c.site L p j := by
  have henter := enter_meets hroot hL hf h
  apply Play.Meets.ite
  · intro _
    have hsettings : Play.Meets steps id (c.Between id L (fresh = false)) Play.settings
        fun _ (_ : π) j => (phases id j c.site).IsQuiet ∧ Rests c.site (phases id j) :=
      (Play.Meets.settings fun _ φ => (φ c.site).IsQuiet ∧ Rests c.site φ).mono
        (fun p j hp => ⟨hp.1, hp.2.1⟩) fun _ _ _ h => h
    apply hsettings.bind
    intro _
    apply Play.Meets.ite
    · intro _
      have hsay : Play.Meets steps id
          (fun _ j => (phases id j c.site).IsQuiet ∧ Rests c.site (phases id j))
          (Play.say (π := π) (.entered source c.owner label index))
          fun _ _ j => (phases id j c.site).IsQuiet ∧ Rests c.site (phases id j) :=
        Play.Meets.say _ fun _ φ => (φ c.site).IsQuiet ∧ Rests c.site φ
      exact hsay.bind fun _ => henter
    · exact fun _ => henter
  · intro hfresh
    apply Play.Meets.pure
    rintro p j ⟨-, hr, hlive⟩
    obtain ⟨hu, hl⟩ := hlive (by simpa using hfresh)
    exact ⟨hu, hr, hl⟩

theorem closeStep_meets (hf : exit.Follows Nowhere) : Play.Meets steps id
    (fun p j => phases id j c.site = Phase.ended .ticking (some status) ∧
      Resting id c.site L p j)
    (c.closeStep source label index status exit)
    fun _ => c.Between id L (status.isRunning = true) := by
  apply Play.Meets.ite
  · intro hterminal
    have hexit : Play.Meets steps id
        (fun p j => phases id j c.site = Phase.ended .ticking (some status) ∧
          Resting id c.site L p j) (c.exit exit)
        fun _ _ j => phases id j c.site = .idle ∧ Rests c.site (phases id j) := by
      apply exit_meets hroot hf
      rintro p j ⟨hs, hr, -⟩
      refine ⟨.inl ?_, hr⟩
      rw [← phases_root hroot, hs, Phase.ended, if_pos hterminal]
    have hdone : ∀ (p : π) j, phases id j c.site = .idle ∧ Rests c.site (phases id j) →
        c.Between id L (status.isRunning = true) p j := by
      rintro p j ⟨hi, hr⟩
      refine ⟨.inl hi, hr, fun hrun => ?_⟩
      rw [Status.isTerminal, hrun] at hterminal
      exact absurd hterminal (by simp)
    apply hexit.bind
    intro _
    apply (Play.Meets.settings fun _ φ => φ c.site = .idle ∧ Rests c.site φ).bind
    intro _
    apply Play.Meets.ite
    · exact fun _ => (Play.Meets.say _ fun _ φ => φ c.site = .idle ∧ Rests c.site φ).mono
        (fun _ _ h => h) fun _ => hdone
    · exact fun _ => .pure () hdone
  · intro hterminal
    apply Play.Meets.pure
    rintro p j ⟨hs, hr, hl⟩
    have hu : phases id j c.site = .underway := by
      rw [hs, Phase.ended, if_neg hterminal]
    exact ⟨.inr hu, hr, fun _ => ⟨hu, hl⟩⟩

include hL in
/-- A step that is driven is entered if it was not yet, ticked, and exited if it has settled. -/
theorem drive_meets (hef : enter.Follows (Below c.site)) (htf : tick.Follows (Below c.site))
    (hxf : exit.Follows Nowhere)
    (he : Play.Meets steps id (fun _ j => Rests c.site (phases id j)) enter
      fun _ => Resting id c.site L)
    (ht : Play.Meets steps id
      (fun p j => phases id j c.site = .ticking ∧ Resting id c.site L p j)
      tick fun _ => Resting id c.site L) :
    Play.Meets steps id (c.Between id L (fresh = false))
      (c.drive source label index dt fresh enter tick exit)
      fun status => c.Between id L (status.isRunning = true) := by
  apply (openStep_meets hroot hL hef he).bind
  intro _
  apply (tick_meets hroot hL htf ht).bind
  intro status
  apply (closeStep_meets hroot hxf).bind
  exact fun _ => .pure status fun _ _ h => h

end

end Cue

end Sequencer
