import Sequencer.Proofs.Activation.Composite

/-!
# Every step keeps to the life of the steps below it

By recursion on its tree: a step that is entered while everything below it rests, and is ticked
with progress that is right about the phases below it, calls the steps below it only when it may,
and leaves progress that is right again.
-/

set_option autoImplicit false

namespace Sequencer

open Site (Nowhere Within Below From)

theorem Step.live_leaf {s : Step Command} (h : s.isLeaf = true) (σ : Site) (p : s.Progress)
    (φ : Phases) : s.Live σ p φ := by
  cases s <;> trivial

theorem Stage.step?_child {u : Stage} {σ : Site} {s : Step Command} (h : u.step? σ = some s)
    (i : Nat) : u.step? (σ.child i) = s.child? i := by
  rw [Stage.step?, h]
  rfl

theorem Stage.step?_otherwise {u : Stage} {σ : Site} {s : Step Command} (h : u.step? σ = some s)
    (i : Nat) : u.step? (σ.otherwise i) = s.otherwise? i := by
  rw [Stage.step?, h]
  rfl

/-- A lane is not touched by the lanes after it. -/
theorem laneLive_elsewhere (s : Step Command) (σ : Site) (index : Nat) (a : Lane s.Progress)
    (φ ψ : Phases) (hs : ∀ τ, ¬ σ.From (index + 1) τ → ψ τ = φ τ)
    (h : a.Live (s.Live (σ.child index)) (σ.child index) φ) :
    a.Live (s.Live (σ.child index)) (σ.child index) ψ := by
  apply h.congr fun p => Step.Live.congr s _ p
  exact fun τ hτ => hs τ (Site.not_from_of_within hτ (Nat.lt_succ_self index))

/-- A list of steps is driven as its children are. -/
theorem Track.steps_upholds {run : Runner} {dt : Float32} {u : Stage} {id : Nat} {σ : Site}
    (l : List (Step Command)) (cue : Nat → Cue) (onFailure : OnFailure)
    (h : ∀ i fresh, Play.Meets u.step? id
      (Resting id σ fun p φ => fresh = false → Going (cue i).site (liveNth l (cue i).site i) p φ)
      (driveNth run dt l (cue i) i i fresh)
      fun status => Resting id σ fun p φ =>
        status.isRunning = true → Going (cue i).site (liveNth l (cue i).site i) p φ) :
    Play.Upholds u.step? id σ
      (Track.Live (fun i => liveNth l (cue i).site i) fun i => (cue i).site)
      (Track.tick l.length onFailure fun i fresh => driveNth run dt l (cue i) i i fresh) :=
  Track.tick_upholds fun i fresh _ => h i fresh

section

variable {run : Runner} (hrun : run.Follows) {u : Stage} {id : Nat}

include hrun

theorem Step.enter_meets_leaf {s : Step Command} (h : s.isLeaf = true) (cue : Cue) :
    Play.Meets u.step? id (fun _ j => Rests cue.site (phases id j)) (s.enter run cue)
      fun _ => Resting id cue.site (s.Live cue.site) := by
  apply Play.Meets.of_quiet (Step.enter_follows_leaf hrun s h cue)
  intro p v a q t _ hφ hr
  rw [Resting, hφ]
  exact ⟨hr, Step.live_leaf h _ _ _⟩

theorem Step.tick_meets_leaf {s : Step Command} (h : s.isLeaf = true) (cue : Cue) (dt : Float32) :
    Play.Meets u.step? id
      (fun p j => phases id j cue.site = .ticking ∧ Resting id cue.site (s.Live cue.site) p j)
      (s.tick run dt cue) fun _ => Resting id cue.site (s.Live cue.site) := by
  apply Play.Meets.of_quiet (Step.tick_follows_leaf hrun s h cue)
  intro p v a q t _ hφ hp
  rw [Resting, hφ]
  exact ⟨hp.2.1, Step.live_leaf h _ _ _⟩

mutual

theorem Step.enter_meets : (s : Step Command) → (cue : Cue) → cue.site.root = some id →
    Play.Meets u.step? id (fun _ j => Rests cue.site (phases id j)) (s.enter run cue)
      fun _ => Resting id cue.site (s.Live cue.site)
  | .choose _ yes no, cue, _ => ChoiceProgress.enter_meets hrun
      (L := fun i => liveNth yes (cue.site.child i) i)
      (M := fun i => liveNth no (cue.site.otherwise i) i)
  | .bounded _ _ steps, cue, _ =>
    BoundedProgress.enter_meets (L := fun i => liveNth steps (cue.site.child i) i)
  | .retry _ steps, cue, _ =>
    RetryProgress.enter_meets (L := fun i => liveNth steps (cue.site.child i) i)
  | .group steps, cue, _ => Track.rewound_meets (L := fun i => liveNth steps (cue.site.child i) i)
  | .parallel _ steps, cue, hroot => enterLanes_meets steps cue 0 hroot
  | .wait _, cue, _ => Step.enter_meets_leaf hrun rfl cue
  | .frames _, cue, _ => Step.enter_meets_leaf hrun rfl cue
  | .tween _, cue, _ => Step.enter_meets_leaf hrun rfl cue
  | .await _ _ _, cue, _ => Step.enter_meets_leaf hrun rfl cue
  | .barrier _ _, cue, _ => Step.enter_meets_leaf hrun rfl cue
  | .probe _ _, cue, _ => Step.enter_meets_leaf hrun rfl cue
  | .publish _, cue, _ => Step.enter_meets_leaf hrun rfl cue
  | .invoke _ _, cue, _ => Step.enter_meets_leaf hrun rfl cue
  | .component _ _ _, cue, _ => Step.enter_meets_leaf hrun rfl cue
  | .call _, cue, _ => Step.enter_meets_leaf hrun rfl cue
  | .startSequence _, cue, _ => Step.enter_meets_leaf hrun rfl cue
  | .stopSequence _, cue, _ => Step.enter_meets_leaf hrun rfl cue
  | .custom _ _ _ _, cue, _ => Step.enter_meets_leaf hrun rfl cue

theorem enterLanes_meets : (l : List (Step Command)) → (cue : Cue) → (index : Nat) →
    cue.site.root = some id →
    Play.Meets u.step? id (fun _ j => Rests cue.site (phases id j)) (enterLanes run l cue index)
      fun _ => Resting id cue.site (liveLanes l cue.site index)
  | [], _, _, _ => .pure () fun _ _ hr => ⟨hr, trivial⟩
  | s :: rest, cue, index, hroot => by
    have hbelow : cue.site.Below (cue.child index).site := Site.below_child index
    have hroot' : (cue.child index).site.root = some id := hroot
    have henter := Lane.enter_meets hroot' (fun p φ ψ => Step.Live.congr s _ p)
      (Step.enter_follows hrun s _) (Step.enter_meets s (cue.child index) hroot')
    have hlane : Play.Meets u.step? id (fun _ j => Rests cue.site (phases id j))
        (Lane.enter (cue.child index) (s.enter run (cue.child index)))
        fun _ => Resting id cue.site (Lane.Live (s.Live (cue.site.child index))
          (cue.site.child index)) := by
      apply Play.Meets.elsewhere (Lane.enter_follows (Step.enter_follows hrun s _)) fun _ _ hr => hr
      apply henter.mono
      · exact fun _ j hr => ⟨hr _ hbelow, hr.within hbelow.within⟩
      · exact fun _ _ _ h => h
    have hfirst : Play.Meets u.step? id (fun _ j => Rests cue.site (phases id j))
        (Play.first (Lane.enter (cue.child index) (s.enter run (cue.child index))))
        fun _ => Resting id cue.site fun (a : Lane s.Progress × Lanes rest) =>
          a.1.Live (s.Live (cue.site.child index)) (cue.site.child index) := by
      apply Play.Meets.first
      exact fun a => hlane.mono (fun _ _ hp => hp.2) fun _ _ _ h => h
    apply hfirst.bind
    intro _
    apply Play.Meets.second
    intro a
    have hkept := (enterLanes_meets rest cue (index + 1) hroot).frame
      (enterLanes_follows hrun rest cue (index + 1)) (laneLive_elsewhere s cue.site index a.1)
    apply hkept.mono
    · exact fun _ _ hp => ⟨hp.2.1, hp.2.2⟩
    · exact fun _ _ _ hp => ⟨hp.1.1, hp.2, hp.1.2⟩

end

/-- The exit of one child of a list that may be exited. -/
theorem exitNth_meets {σ : Site} {cue : Cue} (hσ : σ.Within cue.site)
    (hroot : cue.site.root = some id) : (l : List (Step Command)) → (n : Nat) →
    {P : Children l → List Entry → Prop} →
    (∀ p j, P p j → (Entry.called cue.site .exit).Allowed u.step? j ∧ Rests σ (phases id j)) →
    Play.Meets u.step? id P (exitNth run l cue n) fun _ _ j => Rests σ (phases id j)
  | [], _, _, hP => .pure () fun p j hp => (hP p j hp).2
  | s :: rest, 0, P, hP => by
    apply Play.Meets.first
    intro a
    have hfollows := Cue.exit_follows (c := cue) (Step.exit_follows hrun s cue)
    have hrest : ∀ p j, p = a.1 ∧ P a j → Rests σ (phases id j) := fun p j hp => (hP a j hp.2).2
    have hexit : Play.Meets u.step? id (fun p j => p = a.1 ∧ P a j)
        (cue.exit (s.exit run cue))
        fun _ _ j => phases id j cue.site = .idle ∧ Rests cue.site (phases id j) := by
      apply Cue.exit_meets hroot (Step.exit_follows hrun s cue)
      exact fun p j hp => ⟨(hP a j hp.2).1, (hrest p j hp).within hσ⟩
    have helse : Play.Meets u.step? id (fun p j => p = a.1 ∧ P a j) (cue.exit (s.exit run cue))
        fun _ _ j => Rests σ (phases id j) ∧ True := by
      apply Play.Meets.elsewhere (B := fun _ _ _ => True) hfollows hrest
      apply hexit.mono
      · exact fun _ _ hp => hp
      · exact fun _ _ _ hp => ⟨.inl hp.1, hp.2, trivial⟩
    apply helse.mono
    · exact fun _ _ hp => hp
    · exact fun _ _ _ hp => hp.1
  | _ :: rest, n + 1, P, hP => by
    apply Play.Meets.second
    intro a
    exact exitNth_meets hσ hroot rest n fun p j hp => hP a j hp.2

variable {dt : Float32}

mutual

/-- The life of the steps below a step while that step is ticked. -/
theorem Step.tick_meets : (s : Step Command) → (cue : Cue) → cue.site.root = some id →
    u.step? cue.site = some s → Play.Meets u.step? id
      (fun p j => phases id j cue.site = .ticking ∧ Resting id cue.site (s.Live cue.site) p j)
      (s.tick run dt cue) fun _ => Resting id cue.site (s.Live cue.site)
  | .choose _ yes no, cue, hroot, hstep => by
    have hyes := Track.steps_upholds yes cue.child .advance fun i fresh =>
      driveNth_meets yes (cue.child i) i i fresh (Site.below_child i) hroot
        fun s hs => (u.step?_child hstep i).trans hs
    have hno := Track.steps_upholds no cue.otherwise .advance fun i fresh =>
      driveNth_meets no (cue.otherwise i) i i fresh (Site.below_otherwise i) hroot
        fun s hs => (u.step?_otherwise hstep i).trans hs
    exact (ChoiceProgress.tick_upholds hyes hno).mono (fun _ _ hp => hp.2) fun _ _ _ hp => hp
  | .bounded seconds policy steps, cue, hroot, hstep => by
    have hbody := Track.steps_upholds steps cue.child .advance fun i fresh =>
      driveNth_meets steps (cue.child i) i i fresh (Site.below_child i) hroot
        fun s hs => (u.step?_child hstep i).trans hs
    apply BoundedProgress.tick_meets hbody
    apply Track.cancel_meets fun _ _ hp => hp.1.1
    intro t he hlt
    have hroot' : (cue.child t.cursor).site.root = some id := hroot
    apply exitNth_meets hrun (Site.below_child t.cursor).within hroot'
    rintro p j ⟨-, ⟨hr, hlive⟩, j', rfl, ht⟩
    have hcut : CutShort u.step? (cue.child t.cursor).site
        (.notice (.timeoutHit cue.owner seconds t.cursor) :: j') := by
      rw [phases_root hroot] at ht
      exact ⟨cue.site, t.cursor, cue.owner, seconds, policy, steps, j', rfl, hstep, rfl, ht⟩
    have hunderway := (hlive he).1
    rw [phases_root hroot'] at hunderway
    exact ⟨.inr ⟨hunderway, hcut⟩, hr⟩
  | .retry _ steps, cue, hroot, hstep => by
    have hbody := Track.steps_upholds steps cue.child .propagate fun i fresh =>
      driveNth_meets steps (cue.child i) i i fresh (Site.below_child i) hroot
        fun s hs => (u.step?_child hstep i).trans hs
    exact (RetryProgress.tick_upholds hbody).mono (fun _ _ hp => hp.2) fun _ _ _ hp => hp
  | .group steps, cue, hroot, hstep => by
    have hbody := Track.steps_upholds steps cue.child .propagate fun i fresh =>
      driveNth_meets steps (cue.child i) i i fresh (Site.below_child i) hroot
        fun s hs => (u.step?_child hstep i).trans hs
    exact hbody.mono (fun _ _ hp => hp.2) fun _ _ _ hp => hp
  | .parallel mode steps, cue, hroot, hstep => by
    have hlanes : Play.Upholds u.step? id cue.site (liveLanes steps cue.site 0)
        (tickLanes run dt steps cue 0) := tickLanes_meets steps cue 0 hroot fun i s hs => by
      rw [Nat.zero_add]
      exact (u.step?_child hstep i).trans hs
    have hparallel : Play.Upholds u.step? id cue.site (liveLanes steps cue.site 0)
        ((Step.parallel mode steps).tick run dt cue) :=
      hlanes.bind fun _ => .readThen fun _ => mode.conclude_upholds _ _ _
    exact hparallel.mono (fun _ _ hp => hp.2) fun _ _ _ hp => hp
  | .wait _, cue, _, _ => Step.tick_meets_leaf hrun rfl cue dt
  | .frames _, cue, _, _ => Step.tick_meets_leaf hrun rfl cue dt
  | .tween _, cue, _, _ => Step.tick_meets_leaf hrun rfl cue dt
  | .await _ _ _, cue, _, _ => Step.tick_meets_leaf hrun rfl cue dt
  | .barrier _ _, cue, _, _ => Step.tick_meets_leaf hrun rfl cue dt
  | .probe _ _, cue, _, _ => Step.tick_meets_leaf hrun rfl cue dt
  | .publish _, cue, _, _ => Step.tick_meets_leaf hrun rfl cue dt
  | .invoke _ _, cue, _, _ => Step.tick_meets_leaf hrun rfl cue dt
  | .component _ _ _, cue, _, _ => Step.tick_meets_leaf hrun rfl cue dt
  | .call _, cue, _, _ => Step.tick_meets_leaf hrun rfl cue dt
  | .startSequence _, cue, _, _ => Step.tick_meets_leaf hrun rfl cue dt
  | .stopSequence _, cue, _, _ => Step.tick_meets_leaf hrun rfl cue dt
  | .custom _ _ _ _, cue, _, _ => Step.tick_meets_leaf hrun rfl cue dt

/-- The child of a list that is driven is ticked when it is under way, and entered first if it
was not. -/
theorem driveNth_meets {σ : Site} : (l : List (Step Command)) → (cue : Cue) → (index n : Nat) →
    (fresh : Bool) → σ.Below cue.site → cue.site.root = some id →
    (∀ s, l[n]? = some s → u.step? cue.site = some s) → Play.Meets u.step? id
      (Resting id σ fun p φ => fresh = false → Going cue.site (liveNth l cue.site n) p φ)
      (driveNth run dt l cue index n fresh)
      fun status => Resting id σ fun p φ =>
        status.isRunning = true → Going cue.site (liveNth l cue.site n) p φ
  | [], _, _, _, _, _, _, _ => .pure _ fun _ _ hp => ⟨hp.1, nofun⟩
  | s :: rest, cue, index, 0, fresh, hσ, hroot, hstep => by
    have hdrive : Play.Meets u.step? id (cue.Between id (s.Live cue.site) (fresh = false))
        (cue.drive .flow s.label index dt fresh (s.enter run cue) (s.tick run dt cue)
          (s.exit run cue))
        fun status => cue.Between id (s.Live cue.site) (status.isRunning = true) :=
      Cue.drive_meets hroot (fun p φ ψ => Step.Live.congr s cue.site p)
        (Step.enter_follows hrun s cue) (Step.tick_follows hrun s cue)
        (Step.exit_follows hrun s cue) (Step.enter_meets hrun s cue hroot)
        (Step.tick_meets s cue hroot (hstep s rfl))
    have hfollows : (cue.drive .flow s.label index dt fresh (s.enter run cue) (s.tick run dt cue)
        (s.exit run cue)).Follows (Within cue.site) :=
      Cue.drive_follows (Step.enter_follows hrun s cue) (Step.tick_follows hrun s cue)
        (Step.exit_follows hrun s cue)
    apply Play.Meets.first
    intro a
    apply Play.Meets.elsewhere (B := fun status p φ => status.isRunning = true →
      Going cue.site (s.Live cue.site) p φ) hfollows fun _ _ hp => hp.2.1
    apply hdrive.mono
    · rintro p j ⟨rfl, hr, hlive⟩
      exact ⟨hr _ hσ, hr.within hσ.within, hlive⟩
    · exact fun _ _ _ hp => hp
  | _ :: rest, cue, index, n + 1, fresh, hσ, hroot, hstep => by
    apply Play.Meets.second
    intro a
    apply (driveNth_meets rest cue index n fresh hσ hroot hstep).mono
    · rintro p j ⟨rfl, hp⟩
      exact hp
    · exact fun _ _ _ hp => hp

theorem tickLanes_meets : (l : List (Step Command)) → (cue : Cue) → (index : Nat) →
    cue.site.root = some id →
    (∀ i s, l[i]? = some s → u.step? (cue.site.child (index + i)) = some s) →
    Play.Upholds u.step? id cue.site (liveLanes l cue.site index) (tickLanes run dt l cue index)
  | [], _, _, _, _ => .pure _
  | s :: rest, cue, index, hroot, hsteps => by
    have hbelow : cue.site.Below (cue.child index).site := Site.below_child index
    have hroot' : (cue.child index).site.root = some id := hroot
    have hfollows : (Lane.tick (cue.child index) dt (s.tick run dt (cue.child index))
        (s.exit run (cue.child index))).Follows (Within (cue.child index).site) :=
      Lane.tick_follows (Step.tick_follows hrun s _) (Step.exit_follows hrun s _)
    have hlane : Play.Upholds u.step? id cue.site
        (Lane.Live (s.Live (cue.site.child index)) (cue.site.child index))
        (Lane.tick (cue.child index) dt (s.tick run dt (cue.child index))
          (s.exit run (cue.child index))) := by
      apply Play.Meets.elsewhere hfollows fun _ _ hp => hp.1
      apply (Lane.tick_meets hroot' (fun p φ ψ => Step.Live.congr s _ p)
        (Step.tick_follows hrun s _) (Step.exit_follows hrun s _)
        (Step.tick_meets s (cue.child index) hroot' (hsteps 0 s rfl))).mono
      · exact fun a j hp => ⟨hp.1 _ hbelow, hp.1.within hbelow.within, hp.2⟩
      · exact fun _ _ _ h => h
    have hrest := tickLanes_meets rest cue (index + 1) hroot fun i s' hs => by
      rw [Nat.add_assoc, Nat.add_comm 1 i]
      exact hsteps (i + 1) s' hs
    -- neither the first lane nor the others touch what is said of the rest
    have hfirst : Play.Upholds u.step? id cue.site (liveLanes (s :: rest) cue.site index)
        (Play.first (Lane.tick (cue.child index) dt (s.tick run dt (cue.child index))
          (s.exit run (cue.child index)))) := by
      apply Play.Meets.first
      intro a
      have hkept := hlane.frame (B := fun φ => liveLanes rest cue.site (index + 1) a.2 φ) hfollows
        fun φ ψ hs hl => liveLanes_congr rest cue.site (index + 1) a.2
          (fun τ hτ => hs τ (Site.not_within_of_from hτ (Nat.lt_succ_self index))) hl
      apply hkept.mono
      · rintro p j ⟨rfl, hr, hl⟩
        exact ⟨⟨hr, hl.1⟩, hl.2⟩
      · exact fun _ _ _ hp => ⟨hp.1.1, hp.1.2, hp.2⟩
    have hsecond : Play.Upholds u.step? id cue.site (liveLanes (s :: rest) cue.site index)
        (Play.second (tickLanes run dt rest cue (index + 1))) := by
      apply Play.Meets.second
      intro a
      have hkept := hrest.frame (tickLanes_follows hrun rest cue (index + 1))
        (laneLive_elsewhere s cue.site index a.1)
      apply hkept.mono
      · rintro p j ⟨rfl, hr, hl⟩
        exact ⟨⟨hr, hl.2⟩, hl.1⟩
      · exact fun _ _ _ hp => ⟨hp.1.1, hp.2, hp.1.2⟩
    exact hfirst.bind fun _ => hsecond.bind fun _ => .pure _

end

end

end Sequencer
