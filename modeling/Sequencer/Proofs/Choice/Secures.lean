import Sequencer.Proofs.Choice.Recalls
import Sequencer.Proofs.Course.Drive

/-!
# Plays that may halt

What a play with a step of a ticking sequence leaves behind whether or not it comes to its end. A
play that halts leaves the progress as it was just then, so a condition that outlasts a panic has
to hold at every point at which a play may halt.
-/

set_option autoImplicit false

namespace Sequencer

open Site (Nowhere Within Below)

def Play.Secures {π α : Type} (id : Nat) (P : π → List Entry → Prop) (x : Play π α)
    (Q : π → List Entry → Prop) : Prop :=
  ∀ p s, Playing id s → P p s.journal → ∀ r q t, x (p, s) = (r, q, t) →
    Playing id t ∧ Q q t.journal

namespace Play.Secures

variable {π ρ α β : Type} {id : Nat} {P Q R : π → List Entry → Prop}

theorem mono {P' Q' : π → List Entry → Prop} {x : Play π α} (h : Secures id P x Q)
    (hP : ∀ p j, P' p j → P p j) (hQ : ∀ p j, Q p j → Q' p j) : Secures id P' x Q' := by
  intro p s hs hp r q t ht
  obtain ⟨hplaying, hq⟩ := h p s hs (hP p _ hp) r q t ht
  exact ⟨hplaying, hQ q _ hq⟩

theorem pure (a : α) (h : ∀ p j, P p j → Q p j) : Secures id P (pure a) Q := by
  intro p s hs hp r q t ht
  obtain ⟨-, hqt⟩ := Prod.mk.inj ht
  obtain ⟨rfl, rfl⟩ := Prod.mk.inj hqt
  exact ⟨hs, h p _ hp⟩

/-- What the first play leaves has to be enough also if it halts. -/
theorem bind {x : Play π α} {f : α → Play π β} (hx : Secures id P x R)
    (hR : ∀ p j, R p j → Q p j) (hf : ∀ a, Secures id R (f a) Q) : Secures id P (x >>= f) Q := by
  intro p s hs hp r q t ht
  rw [Play.bind_apply] at ht
  rcases hr : x (p, s) with ⟨e | a, p', s'⟩ <;> rw [hr] at ht
  · obtain ⟨-, hqt⟩ := Prod.mk.inj ht
    obtain ⟨rfl, rfl⟩ := Prod.mk.inj hqt
    obtain ⟨hplaying, hq⟩ := hx p s hs hp _ p' s' hr
    exact ⟨hplaying, hR p' _ hq⟩
  · obtain ⟨hs', hq⟩ := hx p s hs hp _ p' s' hr
    exact hf a p' s' hs' hq r q t ht

theorem andThen {x : Play π α} {f : α → Play π β} (hx : Secures id P x Q)
    (hf : ∀ a, Secures id Q (f a) Q) : Secures id P (x >>= f) Q := hx.bind (fun _ _ h => h) hf

theorem read {f : π → Play π β} (h : ∀ p, Secures id (fun q j => q = p ∧ P q j) (f p) Q) :
    Secures id P (Play.read >>= f) Q := fun p s hs hp => h p p s hs ⟨rfl, hp⟩

theorem readThen {f : π → Play π β} (h : ∀ p, Secures id P (f p) Q) :
    Secures id P (Play.read >>= f) Q :=
  read fun p => (h p).mono (fun _ _ hq => hq.2) fun _ _ hq => hq

theorem change {f : π → π} (h : ∀ p j, P p j → Q (f p) j) : Secures id P (Play.change f) Q := by
  intro p s hs hp r q t ht
  obtain ⟨-, hqt⟩ := Prod.mk.inj ht
  obtain ⟨rfl, rfl⟩ := Prod.mk.inj hqt
  exact ⟨hs, h p _ hp⟩

theorem note {e : Entry} (h : ∀ p j, P p j → Q p (e :: j)) : Secures id P (Play.note e) Q := by
  intro p s hs hp r q t ht
  obtain ⟨-, hqt⟩ := Prod.mk.inj ht
  obtain ⟨rfl, rfl⟩ := Prod.mk.inj hqt
  exact ⟨⟨hs.sound.note e, hs.ticking⟩, h p _ hp⟩

theorem ite {c : Prop} [Decidable c] {x y : Play π α} (hx : Secures id P x Q)
    (hy : Secures id P y Q) : Secures id P (if c then x else y) Q := by
  split
  · exact hx
  · exact hy

/-- A play on a part, given what it makes of each whole that the part may belong to. -/
theorem part {get : ρ → π} {put : π → ρ → ρ} {x : Play π α} {P Q : ρ → List Entry → Prop}
    (h : ∀ a, Secures id (fun p j => p = get a ∧ P a j) x fun p j => Q (put p a) j) :
    Secures id P (Play.part get put x) Q := by
  intro a s hs ha r b t ht
  obtain ⟨hr, hbt⟩ := Prod.mk.inj ht
  obtain ⟨rfl, rfl⟩ := Prod.mk.inj hbt
  exact h a (get a) s hs ⟨rfl, ha⟩ r _ _ (Prod.ext hr rfl)

/-- What a play does to the part is all that matters of the whole. -/
theorem onPart {get : ρ → π} {put : π → ρ → ρ} {x : Play π α} (hput : ∀ p a, get (put p a) = p)
    (h : Secures id P x Q) :
    Secures id (fun a j => P (get a) j) (Play.part get put x) fun a j => Q (get a) j := by
  apply part
  intro a
  apply h.mono
  · rintro p j ⟨rfl, hp⟩
    exact hp
  · intro p j hq
    rw [hput]
    exact hq

/-- A play that makes no calls, whatever it makes of the progress. -/
theorem of_quiet {x : Play π α} (hx : x.Follows Nowhere)
    (h : ∀ p q, Stable id Nowhere (P p) ∧ ∀ j, P p j → P q j) : Secures id P x P := by
  intro p s hs hp r q t ht
  obtain ⟨hplaying, l, hl, hown⟩ := hx.playing hs ht
  obtain ⟨hstable, hsame⟩ := h p q
  rw [hl]
  exact ⟨hplaying, hsame _ (hstable l _ hown hp)⟩

/-- An act that makes no calls leaves the progress alone. -/
theorem onStage {act : Act α} (hact : act.Follows Nowhere) (h : ∀ p, Stable id Nowhere (P p)) :
    Secures id P (Play.onStage act) P := by
  intro p s hs hp r q t ht
  obtain ⟨hplaying, l, hl, hown⟩ :=
    (Play.Follows.onStage hact : (Play.onStage act : Play π α).Follows Nowhere).playing hs ht
  obtain rfl : p = q := congrArg (·.2.1) ht
  rw [hl]
  exact ⟨hplaying, h p l _ hown hp⟩

theorem say (n : Notice) (h : ∀ p, Stable id Nowhere (P p)) : Secures id P (Play.say n) P :=
  onStage (.of_remarks (.say n)) h

theorem settings (h : ∀ p, Stable id Nowhere (P p)) : Secures id P Play.settings P :=
  onStage (.of_remarks (.read _)) h

/-- What entries at the sites of a play do not change survives the play. -/
theorem frame {x : Play π α} {own : Site → Prop} {B : List Entry → Prop} (h : Secures id P x Q)
    (hx : x.Follows own) (hB : Stable id own B) :
    Secures id (fun p j => P p j ∧ B j) x fun p j => Q p j ∧ B j := by
  intro p s hs hp r q t ht
  obtain ⟨hplaying, hq⟩ := h p s hs hp.1 r q t ht
  obtain ⟨-, l, hl, hown⟩ := hx.playing hs ht
  refine ⟨hplaying, hq, ?_⟩
  rw [hl]
  exact hB l _ hown hp.2

end Play.Secures

section

variable {π : Type} {steps : Site → Option (Step Command)} {id : Nat}
  {A : π → (Site → Option Bool) → Prop}

def Keeping (steps : Site → Option (Step Command)) (id : Nat)
    (A : π → (Site → Option Bool) → Prop) (p : π) (j : List Entry) : Prop :=
  Fitting steps id j ∧ A p (chosen j)

def Callable (steps : Site → Option (Step Command)) (id : Nat) (τ : Site)
    (A : π → (Site → Option Bool) → Prop) (p : π) (j : List Entry) : Prop :=
  Keeping steps id A p j ∧ Welcome steps τ j

end

namespace Cue

variable {π : Type} {steps : Site → Option (Step Command)} {id : Nat} {c : Cue}
  {A : π → (Site → Option Bool) → Prop} {enter exit : Play π Unit} {tick : Play π Status}
  {dt : Float32} {source : Source} {label : String} {index : Nat} {fresh : Bool} {status : Status}

section

variable (hroot : c.site.root = some id)

include hroot

theorem welcome_stable : Stable id (Within c.site) (Welcome steps c.site) :=
  .welcome hroot fun _ _ => Site.not_within_parent

theorem note_called_secures (call : Call) : Play.Secures id (Callable steps id c.site A)
    (Play.note (.called c.site call))
    fun p j => Callable steps id c.site A p j ∧ Phase.of c.site j = call.phase := by
  apply Play.Secures.note
  rintro p j ⟨⟨hfit, ha⟩, hw⟩
  refine ⟨⟨⟨⟨fun σ _ _ => hw, hfit⟩, ha⟩, ?_⟩, Phase.of_called call j⟩
  apply welcome_stable hroot [_] j _ hw
  intro e he τ hτ _
  rw [List.mem_singleton.mp he] at hτ
  obtain rfl := Option.some.inj hτ
  exact .here

/-- Whatever a return tells, the step may be called again. -/
theorem welcome_returned {r : Option Status} {j : List Entry} (h : Welcome steps c.site j) :
    Welcome steps c.site (.returned c.site r :: j) := by
  apply welcome_stable hroot [_] j _ h
  intro e he τ hτ _
  rw [List.mem_singleton.mp he] at hτ
  obtain rfl := Option.some.inj hτ
  exact .here

/-- To enter a step that is no choice. What such a step chose itself is of no account. -/
theorem enter_secures (hc : ¬ Chooses steps c.site)
    (hA : ∀ p B C, (∀ τ, τ ≠ c.site → C τ = B τ) → A p B → A p C)
    (hf : enter.Follows (Below c.site))
    (h : Play.Secures id (Keeping steps id A) enter (Keeping steps id A)) :
    Play.Secures id (Callable steps id c.site A) (c.enter enter)
      (Callable steps id c.site A) := by
  have hbody : Play.Secures id (Callable steps id c.site A) enter (Callable steps id c.site A) :=
    h.frame hf ((welcome_stable hroot).mono fun _ => Below.within)
  apply (note_called_secures hroot .enter).bind fun _ _ hp => hp.1
  intro _
  apply (hbody.mono (fun _ _ hp => hp.1) fun _ _ hp => hp).andThen
  intro _
  apply Play.Secures.note
  rintro p j ⟨⟨hfit, ha⟩, hw⟩
  refine ⟨⟨⟨fun σ hσ hr => ?_, hfit⟩, ?_⟩, welcome_returned hroot hw⟩
  · exact fun hchooses => absurd hchooses hc
  · apply hA p _ _ _ ha
    exact fun τ hτ => chosen_cons_ne (by simpa [Entry.site?] using hτ.symm) j

theorem tick_secures (hf : tick.Follows (Below c.site))
    (h : Play.Secures id (fun p j => Keeping steps id A p j ∧ Phase.of c.site j = .ticking) tick
      (Keeping steps id A)) :
    Play.Secures id (Callable steps id c.site A) (c.tick dt tick)
      (Callable steps id c.site A) := by
  have hw : Stable id (Below c.site) (Welcome steps c.site) :=
    (welcome_stable hroot).mono fun _ => Below.within
  have hbody := h.frame hf hw
  apply (note_called_secures hroot (.tick dt)).bind fun _ _ hp => hp.1
  intro _
  have hframed : Play.Secures id
      (fun p j => Callable steps id c.site A p j ∧ Phase.of c.site j = .ticking) tick
      (Callable steps id c.site A) :=
    hbody.mono (fun _ _ hp => ⟨⟨hp.1.1, hp.2⟩, hp.1.2⟩) fun _ _ hp => hp
  apply hframed.andThen
  intro status
  have hreturn : Play.Secures id (Callable steps id c.site A)
      (Play.note (.returned c.site (some status))) (Callable steps id c.site A) := by
    apply Play.Secures.note
    rintro p j ⟨⟨hfit, ha⟩, hw⟩
    exact ⟨⟨⟨fun σ _ _ => trivial, hfit⟩, ha⟩, welcome_returned hroot hw⟩
  exact hreturn.andThen fun _ => .pure status fun _ _ hp => hp

theorem exit_secures (hf : exit.Follows Nowhere)
    (h : Play.Secures id (Keeping steps id A) exit (Keeping steps id A)) :
    Play.Secures id (Callable steps id c.site A) (c.exit exit) (Callable steps id c.site A) := by
  have hleaving : Stable id Nowhere fun j =>
      Welcome steps c.site j ∧ Phase.of c.site j = .leaving :=
    ((welcome_stable hroot).mono fun _ => False.elim).and (.phase hroot fun h => h)
  apply (note_called_secures hroot .exit).bind fun _ _ hp => hp.1
  intro _
  have hbody : Play.Secures id
      (fun p j => Callable steps id c.site A p j ∧ Phase.of c.site j = .leaving) exit
      fun p j => Callable steps id c.site A p j ∧ Phase.of c.site j = .leaving :=
    (h.frame hf hleaving).mono (fun _ _ hp => ⟨hp.1.1, hp.1.2, hp.2⟩)
      fun _ _ hp => ⟨⟨hp.1, hp.2.1⟩, hp.2.2⟩
  apply hbody.bind fun _ _ hp => hp.1
  intro _
  apply Play.Secures.note
  rintro p j ⟨⟨⟨hfit, ha⟩, hw⟩, hl⟩
  refine ⟨⟨⟨fun σ hσ _ => ?_, hfit⟩, ?_⟩, welcome_returned hroot hw⟩
  · intro _ he
    rw [hl] at he
    exact absurd he (by simp)
  · rw [chosen_returned (by rw [hl]; simp)]
    exact ha

end

theorem callable_stable (hA : ∀ p : π, Stable id Nowhere fun j => A p (chosen j))
    (hroot : c.site.root = some id) (p : π) : Stable id Nowhere (Callable steps id c.site A p) :=
  (Fitting.stable.and (hA p)).and ((welcome_stable hroot).mono fun _ => False.elim)

section

variable {P : π → List Entry → Prop} (hP : ∀ p, Stable id Nowhere (P p))

include hP

theorem openStep_secures (h : Play.Secures id P (c.enter enter) P) :
    Play.Secures id P (c.openStep source label index fresh enter) P := by
  refine .ite (.andThen (.settings hP) fun settings => .ite ?_ h) (.pure () fun _ _ hp => hp)
  exact .andThen (.say _ hP) fun _ => h

theorem closeStep_secures (h : Play.Secures id P (c.exit exit) P) :
    Play.Secures id P (c.closeStep source label index status exit) P := by
  refine .ite (.andThen h fun _ => .andThen (.settings hP) fun settings => ?_)
    (.pure () fun _ _ hp => hp)
  exact .ite (.say _ hP) (.pure () fun _ _ hp => hp)

/-- A drive is made of calls. -/
theorem drive_secures (henter : Play.Secures id P (c.enter enter) P)
    (htick : Play.Secures id P (c.tick dt tick) P) (hexit : Play.Secures id P (c.exit exit) P) :
    Play.Secures id P (c.drive source label index dt fresh enter tick exit) P := by
  apply (openStep_secures hP henter).andThen
  intro _
  apply htick.andThen
  intro status
  apply (closeStep_secures hP hexit).andThen
  exact fun _ => .pure status fun _ _ hp => hp

end

end Cue

/-! Composite steps, given their children -/

section

variable {π : Type} {id : Nat} {J : π → List Entry → Prop}

theorem Track.tick_secures {length : Nat} {onFailure : OnFailure}
    {drive : Nat → Bool → Play π Status} (h : ∀ i fresh, Play.Secures id J (drive i fresh) J) :
    Play.Secures id (fun t : Track π => J t.children) (Track.tick length onFailure drive)
      fun t => J t.children := by
  refine .readThen fun t => .ite ?_ (.pure _ fun _ _ hp => hp)
  refine .andThen (.change fun _ _ hp => hp) fun _ => ?_
  refine .andThen (.onPart (fun _ _ => rfl) (h t.cursor !t.entered)) fun status => ?_
  refine .ite (.pure _ fun _ _ hp => hp) (.andThen (.change fun _ _ hp => hp) fun _ => ?_)
  exact .ite (.pure _ fun _ _ hp => hp) (.pure _ fun _ _ hp => hp)

theorem Track.cancel_secures {length : Nat} {exit : Nat → Play π Unit}
    (h : ∀ i, Play.Secures id J (exit i) J) :
    Play.Secures id (fun t : Track π => J t.children) (Track.cancel length exit)
      fun t => J t.children := by
  have hend : Play.Secures id (fun t : Track π => J t.children)
      (Play.change fun t => { t with entered := false, cursor := length })
      fun t => J t.children := .change fun _ _ hp => hp
  refine .readThen fun t => .ite ?_ hend
  exact .andThen (.onPart (fun _ _ => rfl) (h t.cursor)) fun _ => hend

theorem BoundedProgress.enter_secures :
    Play.Secures id (fun p : BoundedProgress π => J p.body.children) BoundedProgress.enter
      fun p => J p.body.children := .change fun _ _ hp => hp

theorem BoundedProgress.tick_secures {owner : String} {seconds : Float32} {policy : Expiry}
    {dt : Float32} {body : Play (Track π) Status} {cancel : Play (Track π) Unit}
    (hJ : ∀ p, Stable id Nowhere (J p))
    (hbody : Play.Secures id (fun t : Track π => J t.children) body fun t => J t.children)
    (hcancel : Play.Secures id (fun t : Track π => J t.children) cancel fun t => J t.children) :
    Play.Secures id (fun p : BoundedProgress π => J p.body.children)
      (BoundedProgress.tick owner seconds policy dt body cancel) fun p => J p.body.children := by
  refine .andThen (.change fun _ _ hp => hp) fun _ => .readThen fun p => ?_
  refine .ite ?_ (.onPart (fun _ _ => rfl) hbody)
  refine .andThen (.say _ fun p => hJ p.body.children) fun _ => ?_
  exact .andThen (.onPart (fun _ _ => rfl) hcancel) fun _ => .pure _ fun _ _ hp => hp

theorem RetryProgress.enter_secures :
    Play.Secures id (fun p : RetryProgress π => J p.body.children) RetryProgress.enter
      fun p => J p.body.children := .change fun _ _ hp => hp

theorem RetryProgress.tick_secures {owner : String} {attempts : UInt32}
    {body : Play (Track π) Status} (hJ : ∀ p, Stable id Nowhere (J p))
    (hbody : Play.Secures id (fun t : Track π => J t.children) body fun t => J t.children) :
    Play.Secures id (fun p : RetryProgress π => J p.body.children)
      (RetryProgress.tick owner attempts body) fun p => J p.body.children := by
  refine .andThen (.onPart (fun _ _ => rfl) hbody) fun status => ?_
  split
  · refine .andThen (.change fun _ _ hp => hp) fun _ => .readThen fun p => .ite ?_ ?_
    · refine .andThen (.say _ fun p => hJ p.body.children) fun _ => ?_
      exact .pure _ fun _ _ hp => hp
    · exact .andThen (.change fun _ _ hp => hp) fun _ => .pure _ fun _ _ hp => hp
  · exact .pure _ fun _ _ hp => hp

theorem Lane.enter_secures {cue : Cue} {body : Play π Unit}
    (h : Play.Secures id J (cue.enter body) J) :
    Play.Secures id (fun a : Lane π => J a.child) (Lane.enter cue body) fun a => J a.child :=
  .andThen (.change fun _ _ hp => hp) fun _ => .onPart (fun _ _ => rfl) h

theorem Lane.tick_secures {cue : Cue} {dt : Float32} {body : Play π Status} {exit : Play π Unit}
    (htick : Play.Secures id J (cue.tick dt body) J) (hexit : Play.Secures id J (cue.exit exit) J) :
    Play.Secures id (fun a : Lane π => J a.child) (Lane.tick cue dt body exit)
      fun a => J a.child := by
  refine .readThen fun a => .ite (.pure _ fun _ _ hp => hp) ?_
  refine .andThen (.onPart (fun _ _ => rfl) htick) fun status => ?_
  refine .ite (.pure _ fun _ _ hp => hp) (.andThen (.onPart (fun _ _ => rfl) hexit) fun _ => ?_)
  exact .andThen (.change fun _ _ hp => hp) fun _ => .pure _ fun _ _ hp => hp

end

theorem Quorum.conclude_secures {π : Type} {id : Nat} {P : π → List Entry → Prop} (mode : Quorum)
    (hP : ∀ p, Stable id Nowhere (P p)) (owner : String) (settled : List Status) (pending : Nat) :
    Play.Secures id P (mode.conclude owner settled pending) P := by
  unfold Quorum.conclude
  split
  · exact .ite (.andThen (.say _ hP) fun _ => .pure _ fun _ _ hp => hp) (.pure _ fun _ _ hp => hp)
  · exact .pure _ fun _ _ hp => hp

/-! Choices -/

namespace ChoiceProgress

variable {π ρ : Type} {steps : Site → Option (Step Command)} {id : Nat} {σ : Site} {cue : Cue}
  {run : Runner} {question : Question Command} {Y : π → (Site → Option Bool) → Prop}
  {N : ρ → (Site → Option Bool) → Prop}

theorem enter_apply (p : ChoiceProgress π ρ) (s : Stage) :
    ChoiceProgress.enter run cue question (p, s) =
      match inquire run (.step cue.site) cue.owner (p.polls + 1) question s with
      | (.ok true, t) =>
        (.ok (), { p with polls := p.polls + 1, second := false, yes := p.yes.rewound }, t)
      | (.ok false, t) =>
        (.ok (), { p with polls := p.polls + 1, second := true, no := p.no.rewound }, t)
      | (.error h, t) => (.error h, { p with polls := p.polls + 1 }, t) := by
  simp only [ChoiceProgress.enter, Play.bind_apply, Play.change, Play.read, Play.onStage]
  rcases inquire run (.step cue.site) cue.owner (p.polls + 1) question s with ⟨h | _ | _, t⟩ <;> rfl

section

variable (hroot : σ.root = some id)
  (hY : ∀ y B C, (∀ τ, σ.Below τ → C τ = B τ) → Y y B → Y y C)
  (hN : ∀ n B C, (∀ τ, σ.Below τ → C τ = B τ) → N n B → N n C)

include hroot hY hN

/-- Nothing is chosen anew but at the choice itself. -/
theorem callable_answered {p q : ChoiceProgress π ρ} {j : List Entry}
    (h : Callable steps id σ (ChoiceProgress.Recalls Y N σ) p j) (he : Phase.of σ j = .entering)
    (hyes : q.yes.children = p.yes.children) (hno : q.no.children = p.no.children)
    (asked : Option String) : Callable steps id σ (ChoiceProgress.Recalls Y N σ) q
      (.returned σ none :: .polled (.step σ) asked (!q.second) :: j) := by
  obtain ⟨⟨hfit, -, hy, hn⟩, hw⟩ := h
  have hpolled : ∀ τ, (Entry.polled (.step σ) asked (!q.second)).site? ≠ some τ := by
    simp [Entry.site?]
  have hwelcome : Welcome steps σ (.polled (.step σ) asked (!q.second) :: j) := by
    apply (Cue.welcome_stable (c := ⟨"", σ⟩) hroot) [_] j _ hw
    intro e he τ hτ _
    rw [List.mem_singleton.mp he] at hτ
    exact absurd hτ (hpolled τ)
  have hbelow : ∀ τ, σ.Below τ → chosen (.returned σ none ::
      .polled (.step σ) asked (!q.second) :: j) τ = chosen j τ := by
    intro τ hτ
    have hne : σ ≠ τ := by
      rintro rfl
      exact Site.not_below_self σ hτ
    rw [chosen_cons_ne (by simpa [Entry.site?] using hne), chosen_cons_ne (hpolled τ)]
  refine ⟨⟨⟨fun τ hτ _ _ _ => ?_, fun τ hτ => absurd hτ (hpolled τ), hfit⟩, ?_, ?_, ?_⟩,
    Cue.welcome_returned (c := ⟨"", σ⟩) hroot hwelcome⟩
  · obtain rfl := Option.some.inj hτ
    exact ⟨asked, !q.second, j, rfl⟩
  · rw [chosen_answered he]
    rfl
  · rw [hyes]
    exact hY _ _ _ hbelow hy
  · rw [hno]
    exact hN _ _ _ hbelow hn

end

section

variable (hroot : σ.root = some id)
  (hY : ∀ y B C, (∀ τ, σ.Below τ → C τ = B τ) → Y y B → Y y C)
  (hN : ∀ n B C, (∀ τ, σ.Below τ → C τ = B τ) → N n B → N n C)

include hroot hY hN

theorem recalls_stable (p : ChoiceProgress π ρ) :
    Stable id Nowhere fun j => ChoiceProgress.Recalls Y N σ p (chosen j) := by
  rintro l j hl ⟨hlist, hy, hn⟩
  have hsame : ∀ τ, τ.root = some id → chosen (l ++ j) τ = chosen j τ :=
    fun τ hτ => chosen_append (fun e he hs => hl e he τ hs hτ) j
  have hbelow : ∀ τ, σ.Below τ → chosen (l ++ j) τ = chosen j τ :=
    fun τ hτ => hsame τ (hτ.within.root_eq.trans hroot)
  refine ⟨?_, hY _ _ _ hbelow hy, hN _ _ _ hbelow hn⟩
  rw [hsame σ hroot]
  exact hlist

end

/-- A choice that is entered has the list that its question is answered, or else the one it had. -/
theorem enter_secures (hrun : run.Follows) (hroot : cue.site.root = some id)
    (hY : ∀ y B C, (∀ τ, cue.site.Below τ → C τ = B τ) → Y y B → Y y C)
    (hN : ∀ n B C, (∀ τ, cue.site.Below τ → C τ = B τ) → N n B → N n C) :
    Play.Secures id (Callable steps id cue.site (ChoiceProgress.Recalls Y N cue.site))
      (cue.enter (ChoiceProgress.enter run cue question))
      (Callable steps id cue.site (ChoiceProgress.Recalls Y N cue.site)) := by
  intro p s hs hp r q t ht
  have hcalled := Cue.note_called_secures hroot .enter p s hs hp _ _ _ rfl
  -- what is carried out for the question calls no step of the sequence
  have hstable : ∀ p : ChoiceProgress π ρ, Stable id Nowhere fun j =>
      Callable steps id cue.site (ChoiceProgress.Recalls Y N cue.site) p j ∧
        Phase.of cue.site j = .entering :=
    fun p => (Cue.callable_stable (recalls_stable hroot hY hN) hroot p).and
      (.phase hroot fun h => h)
  have hcode := Play.Secures.onStage (performAll_follows hrun question.code) hstable p _
    hcalled.1 hcalled.2
  rw [Cue.enter_apply, ChoiceProgress.enter_apply, inquire_apply] at ht
  rcases hu : performAll run question.code (s.note (.called cue.site .enter)) with ⟨h | _, u⟩
  · obtain ⟨hplaying, hcallable, -⟩ := hcode _ _ _ (Play.onStage_apply hu p)
    simp only [hu] at ht
    obtain ⟨-, rfl, rfl⟩ := ht
    exact ⟨hplaying, hcallable⟩
  · obtain ⟨hplaying, hcallable, hentering⟩ := hcode _ _ _ (Play.onStage_apply hu p)
    simp only [hu, ask_apply] at ht
    rcases hanswer : question.test.eval u cue.owner (p.polls + 1) with h | answer
    · simp only [hanswer] at ht
      obtain ⟨-, rfl, rfl⟩ := ht
      exact ⟨hplaying, hcallable⟩
    · have hdone : ∀ q : ChoiceProgress π ρ, q.yes.children = p.yes.children →
          q.no.children = p.no.children → Callable steps id cue.site
            (ChoiceProgress.Recalls Y N cue.site) q (.returned cue.site none ::
              .polled (.step cue.site) question.id (!q.second) :: u.journal) :=
        fun q hyes hno => callable_answered hroot hY hN hcallable hentering hyes hno question.id
      have hnoted : Playing id ((u.note (.polled (.step cue.site) question.id answer)).note
          (.returned cue.site none)) := ⟨(hplaying.sound.note _).note _, hplaying.ticking⟩
      cases answer <;> simp only [hanswer] at ht <;> obtain ⟨-, rfl, rfl⟩ := ht
      · exact ⟨hnoted, hdone _ rfl rfl⟩
      · exact ⟨hnoted, hdone _ rfl rfl⟩

/-- The list that is driven is the one that was chosen last. -/
theorem tick_secures {yes : Play (Track π) Status} {no : Play (Track ρ) Status}
    {own own' : Site → Prop} (hroot : σ.root = some id) (hyf : yes.Follows own)
    (hnf : no.Follows own') (hyσ : ¬ own σ) (hnσ : ¬ own' σ)
    (hY : ∀ y, Stable id own' fun j => Y y (chosen j))
    (hN : ∀ n, Stable id own fun j => N n (chosen j))
    (hyes : Play.Secures id
      (fun t j => Keeping steps id (fun t : Track π => Y t.children) t j ∧ Granted steps σ true j)
      yes fun t j =>
        Keeping steps id (fun t : Track π => Y t.children) t j ∧ Granted steps σ true j)
    (hno : Play.Secures id
      (fun t j => Keeping steps id (fun t : Track ρ => N t.children) t j ∧ Granted steps σ false j)
      no fun t j =>
        Keeping steps id (fun t : Track ρ => N t.children) t j ∧ Granted steps σ false j) :
    Play.Secures id
      (fun p j => Keeping steps id (ChoiceProgress.Recalls Y N σ) p j ∧ Phase.of σ j = .ticking)
      (ChoiceProgress.tick yes no) (Keeping steps id (ChoiceProgress.Recalls Y N σ)) := by
  have hself : ∀ (b : Bool) {own : Site → Prop}, ¬ own σ →
      Stable id own fun j => (chosen j σ).getD true = b := by
    intro b own hσ
    refine .elsewhere (B := fun j => (chosen j σ).getD true = b) hroot hσ fun l j hl h => ?_
    rw [chosen_append hl]
    exact h
  apply Play.Secures.read
  intro p
  cases hsecond : p.second with
  | true =>
    rw [if_pos rfl]
    apply Play.Secures.part
    intro a
    apply (hno.frame hnf ((hself (!a.second) hnσ).and (hY a.yes.children))).mono
    · rintro t j ⟨rfl, rfl, ⟨hfit, hlist, hy, hn⟩, ht⟩
      refine ⟨⟨⟨hfit, hn⟩, fun _ => ⟨ht, ?_⟩⟩, hlist, hy⟩
      rw [hlist, hsecond]
      rfl
    · rintro t j ⟨⟨⟨hfit, hn⟩, -⟩, hlist, hy⟩
      exact ⟨hfit, hlist, hy, hn⟩
  | false =>
    rw [if_neg (by simp)]
    apply Play.Secures.part
    intro a
    apply (hyes.frame hyf ((hself (!a.second) hyσ).and (hN a.no.children))).mono
    · rintro t j ⟨rfl, rfl, ⟨hfit, hlist, hy, hn⟩, ht⟩
      refine ⟨⟨⟨hfit, hy⟩, fun _ => ⟨ht, ?_⟩⟩, hlist, hn⟩
      rw [hlist, hsecond]
      rfl
    · rintro t j ⟨⟨⟨hfit, hy⟩, -⟩, hlist, hn⟩
      exact ⟨hfit, hlist, hy, hn⟩

end ChoiceProgress

end Sequencer
