import Sequencer.Proofs.Activation.Calls

/-!
# What composite steps make of their children

Given what driving a child needs and leaves: a list is right again about the child it has under
way when a frame is over, a bounded list also when its time has run over, and so is a lane of a
parallel step.
-/

set_option autoImplicit false

namespace Sequencer

open Site (Nowhere Below)

section

variable {π : Type} {steps : Site → Option (Step Command)} {id : Nat} {σ : Site}
  {τ : Nat → Site} {L : Nat → π → Phases → Prop} {length : Nat}

/-- A list that drives its child at the cursor: the child is entered if the list has not entered
it, and stays under way for as long as it runs. -/
theorem Track.tick_upholds {onFailure : OnFailure} {drive : Nat → Bool → Play π Status}
    (h : ∀ i fresh, i < length → Play.Meets steps id
      (Resting id σ fun p φ => fresh = false → Going (τ i) (L i) p φ) (drive i fresh)
      fun status => Resting id σ fun p φ => status.isRunning = true → Going (τ i) (L i) p φ) :
    Play.Upholds steps id σ (Track.Live L τ) (Track.tick length onFailure drive) := by
  apply Play.Meets.read
  intro t
  -- of the list, while its child is driven, nothing is known but the place of that child
  let At (u : Track π) (going : Prop) (φ : Phases) : Prop := u.entered = true ∧
    u.cursor = t.cursor ∧ (going → Going (τ t.cursor) (L t.cursor) u.children φ)
  apply Play.Meets.ite
  · intro hlength
    have henter : Play.Meets steps id (fun u j => u = t ∧ Resting id σ (Track.Live L τ) u j)
        (Play.change fun u => { u with entered := true })
        fun _ => Resting id σ fun u => At u ((!t.entered) = false) := by
      apply Play.Meets.change
      rintro u j ⟨rfl, hr, hlive⟩
      exact ⟨hr, rfl, rfl, fun he => hlive (by simpa using he)⟩
    have hdrive : Play.Meets steps id (Resting id σ fun u => At u ((!t.entered) = false))
        (Track.onChildren (drive t.cursor !t.entered))
        fun status => Resting id σ fun u => At u (status.isRunning = true) := by
      apply Play.Meets.part
      intro u
      apply Play.Meets.know fun p j hp => (⟨hp.2.2.1, hp.2.2.2.1⟩ : _ ∧ u.cursor = t.cursor)
      rintro ⟨he, hc⟩
      apply (h t.cursor (!t.entered) hlength).mono
      · rintro p j ⟨rfl, hr, -, -, hgoing⟩
        exact ⟨hr, hgoing⟩
      · exact fun status p j hp => ⟨hp.1, he, hc, hp.2⟩
    apply henter.bind
    intro _
    apply hdrive.bind
    intro status
    apply Play.Meets.ite
    · intro hrun
      apply Play.Meets.pure
      rintro u j ⟨hr, -, hc, hgoing⟩
      have hlive : Track.Live L τ u (phases id j) := by
        intro _
        rw [hc]
        exact hgoing hrun
      exact ⟨hr, hlive⟩
    · intro _
      have hadvance : Play.Meets steps id (Resting id σ fun u => At u (status.isRunning = true))
          (Play.change fun u => { u with entered := false, cursor := u.cursor + 1 })
          fun _ => Resting id σ (Track.Live L τ) := by
        apply Play.Meets.change
        exact fun u j hu => ⟨hu.1, nofun⟩
      apply hadvance.bind
      intro _
      exact Play.Upholds.ite (.pure _) (.pure _)
  · intro _
    apply Play.Meets.pure
    exact fun u j hu => hu.2

theorem Track.rewound_meets : Play.Meets steps id (fun _ j => Rests σ (phases id j))
    (Play.change Track.rewound) fun _ => Resting id σ (Track.Live L τ) := by
  apply Play.Meets.change
  exact fun t j hr => ⟨hr, nofun⟩

/-- A list that is cancelled exits the child that it has under way. -/
theorem Track.cancel_meets {exit : Nat → Play π Unit} {P : Track π → List Entry → Prop}
    (hP : ∀ t j, P t j → Rests σ (phases id j))
    (h : ∀ t : Track π, t.entered = true → t.cursor < length → Play.Meets steps id
      (fun p j => p = t.children ∧ P t j) (exit t.cursor) fun _ _ j => Rests σ (phases id j)) :
    Play.Meets steps id P (Track.cancel length exit) fun _ => Resting id σ (Track.Live L τ) := by
  have hend : Play.Meets steps id (fun (_ : Track π) j => Rests σ (phases id j))
      (Play.change fun t => { t with entered := false, cursor := length })
      fun _ => Resting id σ (Track.Live L τ) := by
    apply Play.Meets.change
    exact fun t j hr => ⟨hr, nofun⟩
  apply Play.Meets.read
  intro t
  apply Play.Meets.ite
  · intro hc
    obtain ⟨he, hlt⟩ := Bool.and_eq_true_iff.mp hc
    have hexit : Play.Meets steps id (fun u j => u = t ∧ P u j)
        (Track.onChildren (exit t.cursor)) fun _ _ j => Rests σ (phases id j) := by
      apply Play.Meets.part
      intro u
      apply Play.Meets.know fun p j hp => hp.2.1
      intro hu
      apply (h t he (by simpa using hlt)).mono
      · rintro p j ⟨hp, -, hpj⟩
        rw [hu] at hp hpj
        exact ⟨hp, hpj⟩
      · exact fun _ _ _ hr => hr
    exact hexit.bind fun _ => hend
  · intro _
    exact hend.mono (fun u j hu => hP u j hu.2) fun _ _ _ h => h

theorem ChoiceProgress.enter_meets {ρ : Type} {M : Nat → ρ → Phases → Prop} {run : Runner}
    (hrun : run.Follows) {cue : Cue} {question : Question Command} :
    Play.Meets steps id (fun _ j => Rests σ (phases id j))
      (ChoiceProgress.enter run cue question : Play (ChoiceProgress π ρ) Unit)
      fun _ => Resting id σ fun p => p.Live L M σ := by
  have hpolls : Play.Meets steps id (fun _ j => Rests σ (phases id j))
      (Play.change fun p : ChoiceProgress π ρ => { p with polls := p.polls + 1 })
      fun _ _ j => Rests σ (phases id j) := .change fun _ _ h => h
  apply hpolls.bind
  intro _
  apply Play.Meets.read
  intro p
  have hask : Play.Meets steps id (fun q j => q = p ∧ Rests σ (phases id j))
      (Play.onStage (inquire run (.step cue.site) cue.owner p.polls question))
      fun _ (_ : ChoiceProgress π ρ) j => Rests σ (phases id j) :=
    (Play.Meets.onStage (inquire_follows hrun _ _ _ _) fun _ φ => Rests σ φ).mono
      (fun _ _ h => h.2) fun _ _ _ h => h
  apply hask.bind
  intro answer
  -- either list is rewound when it is chosen, and so says that no child of it is entered
  apply Play.Meets.ite
  · intro _
    exact .change fun q j hr => ⟨hr, nofun⟩
  · intro _
    exact .change fun q j hr => ⟨hr, nofun⟩

theorem ChoiceProgress.tick_upholds {ρ : Type} {M : Nat → ρ → Phases → Prop}
    {yes : Play (Track π) Status} {no : Play (Track ρ) Status}
    (hy : Play.Upholds steps id σ (Track.Live L σ.child) yes)
    (hn : Play.Upholds steps id σ (Track.Live M σ.otherwise) no) :
    Play.Upholds steps id σ (fun p => ChoiceProgress.Live L M σ p)
      (ChoiceProgress.tick yes no) := by
  apply Play.Meets.read
  intro p
  apply Play.Meets.ite
  · intro hsecond
    apply Play.Meets.part
    intro q
    apply Play.Meets.know fun t j ht => ht.2.1
    rintro rfl
    apply hn.mono
    · rintro t j ⟨rfl, -, hr, hlive⟩
      rw [ChoiceProgress.Live, if_pos hsecond] at hlive
      exact ⟨hr, hlive⟩
    · rintro status t j ⟨hr, hlive⟩
      have hchosen : ChoiceProgress.Live L M σ { q with no := t } (phases id j) := by
        rw [ChoiceProgress.Live, if_pos hsecond]
        exact hlive
      exact ⟨hr, hchosen⟩
  · intro hsecond
    apply Play.Meets.part
    intro q
    apply Play.Meets.know fun t j ht => ht.2.1
    rintro rfl
    apply hy.mono
    · rintro t j ⟨rfl, -, hr, hlive⟩
      rw [ChoiceProgress.Live, if_neg hsecond] at hlive
      exact ⟨hr, hlive⟩
    · rintro status t j ⟨hr, hlive⟩
      have hchosen : ChoiceProgress.Live L M σ { q with yes := t } (phases id j) := by
        rw [ChoiceProgress.Live, if_neg hsecond]
        exact hlive
      exact ⟨hr, hchosen⟩

theorem BoundedProgress.enter_meets : Play.Meets steps id (fun _ j => Rests σ (phases id j))
    BoundedProgress.enter
    fun _ => Resting id σ fun p : BoundedProgress π => p.body.Live L τ := by
  apply Play.Meets.change
  exact fun p j hr => ⟨hr, nofun⟩

theorem RetryProgress.enter_meets : Play.Meets steps id (fun _ j => Rests σ (phases id j))
    RetryProgress.enter
    fun _ => Resting id σ fun p : RetryProgress π => p.body.Live L τ := by
  apply Play.Meets.change
  exact fun p j hr => ⟨hr, nofun⟩

/-- A list that is bounded is cancelled right after it is noted that its time has run over. -/
theorem BoundedProgress.tick_meets {owner : String} {seconds : Float32} {policy : Expiry}
    {dt : Float32} {body : Play (Track π) Status} {cancel : Play (Track π) Unit}
    (hb : Play.Upholds steps id σ (Track.Live L τ) body)
    (hc : Play.Meets steps id
      (fun t j => Resting id σ (Track.Live L τ) t j ∧
        ∃ j', j = .notice (.timeoutHit owner seconds t.cursor) :: j' ∧ phases id j' σ = .ticking)
      cancel fun _ => Resting id σ (Track.Live L τ)) :
    Play.Meets steps id
      (fun p j => phases id j σ = .ticking ∧ Resting id σ (fun p => p.body.Live L τ) p j)
      (BoundedProgress.tick owner seconds policy dt body cancel)
      fun _ => Resting id σ fun p => p.body.Live L τ := by
  have hpass : Play.Meets steps id
      (fun p j => phases id j σ = .ticking ∧ Resting id σ (fun p => p.body.Live L τ) p j)
      (Play.change fun p : BoundedProgress π => { p with elapsed := p.elapsed + dt })
      fun _ p j => phases id j σ = .ticking ∧ Resting id σ (fun p => p.body.Live L τ) p j :=
    .change fun _ _ h => h
  apply hpass.bind
  intro _
  apply Play.Meets.read
  intro p
  apply Play.Meets.ite
  · intro _
    have hsay : Play.Meets steps id
        (fun q j => q = p ∧ phases id j σ = .ticking ∧
          Resting id σ (fun p => p.body.Live L τ) q j)
        (Play.say (.timeoutHit owner seconds p.body.cursor))
        fun _ (q : BoundedProgress π) j => Resting id σ (Track.Live L τ) q.body j ∧
          ∃ j', j = .notice (.timeoutHit owner seconds q.body.cursor) :: j' ∧
            phases id j' σ = .ticking := by
      apply Play.Meets.note
      rintro q j ⟨rfl, ht, hr, hlive⟩
      have hsame : phases id (.notice (.timeoutHit owner seconds q.body.cursor) :: j) =
          phases id j := funext fun υ => phases_cons_ne (by simp) j
      have hresting : Resting id σ (Track.Live L τ) q.body
          (.notice (.timeoutHit owner seconds q.body.cursor) :: j) := by
        rw [Resting, hsame]
        exact ⟨hr, hlive⟩
      exact ⟨by simp, hresting, j, rfl, ht⟩
    have hcancel : Play.Meets steps id
        (fun q j => Resting id σ (Track.Live L τ) q.body j ∧
          ∃ j', j = .notice (.timeoutHit owner seconds q.body.cursor) :: j' ∧
            phases id j' σ = .ticking)
        (BoundedProgress.onBody cancel)
        fun _ => Resting id σ fun q => q.body.Live L τ := by
      apply Play.Meets.part
      intro q
      apply hc.mono
      · rintro t j ⟨rfl, hp⟩
        exact hp
      · exact fun _ _ _ h => h
    apply hsay.bind
    intro _
    apply hcancel.bind
    exact fun _ => .pure _ fun _ _ h => h
  · intro _
    apply Play.Meets.part
    intro q
    apply hb.mono
    · rintro t j ⟨rfl, -, -, hp⟩
      exact hp
    · exact fun _ _ _ h => h

theorem RetryProgress.tick_upholds {owner : String} {attempts : UInt32}
    {body : Play (Track π) Status} (hb : Play.Upholds steps id σ (Track.Live L τ) body) :
    Play.Upholds steps id σ (fun p => p.body.Live L τ)
      (RetryProgress.tick owner attempts body) := by
  have hbody : Play.Upholds steps id σ (fun p => p.body.Live L τ) (RetryProgress.onBody body) :=
    .part (fun _ _ h => h) (fun _ _ _ h => h) hb
  apply hbody.bind
  intro status
  cases status with
  | running => exact .pure _
  | succeeded => exact .pure _
  | failed =>
    have hcount : Play.Upholds steps id σ (fun p => p.body.Live L τ)
        (Play.change fun p : RetryProgress π => { p with failures := p.failures + 1 }) :=
      .change fun _ _ h => h
    have hrewind : Play.Upholds steps id σ (fun p => p.body.Live L τ)
        (Play.change fun p : RetryProgress π => { p with body := p.body.rewound }) :=
      .change fun _ _ _ => nofun
    apply hcount.bind
    intro _
    apply Play.Upholds.readThen
    intro p
    apply Play.Upholds.ite
    · exact (Play.Upholds.say _).bind fun _ => .pure _
    · exact hrewind.bind fun _ => .pure _

end

theorem Quorum.conclude_upholds {π : Type} {steps : Site → Option (Step Command)} {id : Nat}
    {σ : Site} {A : π → Phases → Prop} (mode : Quorum) (owner : String) (settled : List Status)
    (pending : Nat) : Play.Upholds steps id σ A (mode.conclude owner settled pending) := by
  unfold Quorum.conclude
  split
  · apply Play.Upholds.ite
    · exact (Play.Upholds.say _).bind fun _ => .pure _
    · exact .pure _
  · exact .pure _

section

variable {π : Type} {steps : Site → Option (Step Command)} {id : Nat} {cue : Cue}
  {L : π → Phases → Prop}

theorem Lane.enter_meets {enter : Play π Unit} (hroot : cue.site.root = some id)
    (hL : ∀ p φ ψ, SameBelow cue.site φ ψ → L p φ → L p ψ) (hf : enter.Follows (Below cue.site))
    (h : Play.Meets steps id (fun _ j => Rests cue.site (phases id j)) enter
      fun _ => Resting id cue.site L) :
    Play.Meets steps id
      (fun _ j => (phases id j cue.site).IsQuiet ∧ Rests cue.site (phases id j))
      (Lane.enter cue enter)
      fun _ a j => (phases id j cue.site).IsQuiet ∧
        Resting id cue.site (Lane.Live L cue.site) a j := by
  have hclear : Play.Meets steps id
      (fun _ j => (phases id j cue.site).IsQuiet ∧ Rests cue.site (phases id j))
      (Play.change fun a : Lane π => { a with settled := none })
      fun _ _ j => (phases id j cue.site).IsQuiet ∧ Rests cue.site (phases id j) :=
    .change fun _ _ h => h
  apply hclear.bind
  intro _
  apply Play.Meets.part
  intro a
  apply (Cue.enter_meets hroot hL hf h).mono
  · exact fun _ _ hp => hp.2
  · exact fun _ p j hp => ⟨.inr hp.1, hp.2.1, fun _ => ⟨hp.1, hp.2.2⟩⟩

theorem Lane.tick_meets {tick : Play π Status} {exit : Play π Unit} {dt : Float32}
    (hroot : cue.site.root = some id)
    (hL : ∀ p φ ψ, SameBelow cue.site φ ψ → L p φ → L p ψ) (hf : tick.Follows (Below cue.site))
    (hxf : exit.Follows Nowhere)
    (h : Play.Meets steps id
      (fun p j => phases id j cue.site = .ticking ∧ Resting id cue.site L p j)
      tick fun _ => Resting id cue.site L) :
    Play.Meets steps id
      (fun a j => (phases id j cue.site).IsQuiet ∧ Resting id cue.site (Lane.Live L cue.site) a j)
      (Lane.tick cue dt tick exit)
      fun _ a j => (phases id j cue.site).IsQuiet ∧
        Resting id cue.site (Lane.Live L cue.site) a j := by
  apply Play.Meets.read
  intro a
  apply Play.Meets.ite
  · intro _
    apply Play.Meets.pure
    exact fun b j hb => hb.2
  · intro hpending
    have hpending : a.settled = none := by simpa using hpending
    have htick : Play.Meets steps id
        (fun b j => b = a ∧ (phases id j cue.site).IsQuiet ∧
          Resting id cue.site (Lane.Live L cue.site) b j)
        (Lane.onChild (cue.tick dt tick))
        fun status b j => phases id j cue.site = Phase.ended .ticking (some status) ∧
          Resting id cue.site L b.child j := by
      apply Play.Meets.part
      intro b
      apply (Cue.tick_meets hroot hL hf h).mono
      · rintro p j ⟨rfl, rfl, -, hr, hlive⟩
        obtain ⟨hu, hl⟩ := hlive hpending
        exact ⟨hu, hr, hl⟩
      · exact fun _ _ _ hp => hp
    apply htick.bind
    intro status
    apply Play.Meets.ite
    · intro hrun
      apply Play.Meets.pure
      rintro b j ⟨hs, hr, hl⟩
      have hu : phases id j cue.site = .underway := by
        rw [hs, Phase.ended, Status.isTerminal, hrun]
        rfl
      exact ⟨.inr hu, hr, fun _ => ⟨hu, hl⟩⟩
    · intro hrun
      have hexit : Play.Meets steps id
          (fun b j => phases id j cue.site = Phase.ended .ticking (some status) ∧
            Resting id cue.site L b.child j)
          (Lane.onChild (cue.exit exit))
          fun _ _ j => phases id j cue.site = .idle ∧ Rests cue.site (phases id j) := by
        apply Play.Meets.part
        intro b
        apply Cue.exit_meets hroot hxf
        rintro p j ⟨rfl, hs, hr, -⟩
        have hsettled : Phase.of cue.site j = .settled := by
          rw [← phases_root hroot, hs, Phase.ended, Status.isTerminal]
          simp [hrun]
        exact ⟨.inl hsettled, hr⟩
      have hsettle : Play.Meets steps id
          (fun _ j => phases id j cue.site = .idle ∧ Rests cue.site (phases id j))
          (Play.change fun b : Lane π => { b with settled := some status })
          fun _ b j => (phases id j cue.site).IsQuiet ∧
            Resting id cue.site (Lane.Live L cue.site) b j := by
        apply Play.Meets.change
        exact fun b j hb => ⟨.inl hb.1, hb.2, fun h => absurd h (Option.some_ne_none status)⟩
      apply hexit.bind
      intro _
      apply hsettle.bind
      exact fun _ => .pure _ fun _ _ h => h

end

end Sequencer
