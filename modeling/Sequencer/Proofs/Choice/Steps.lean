import Sequencer.Proofs.Activation.Steps
import Sequencer.Proofs.Choice.Secures

/-!
# Every choice keeps to its list

By recursion on the tree of a step: whatever halts on the way, a choice calls only steps of the
list that it chose last, and remembers which one that is.
-/

set_option autoImplicit false

namespace Sequencer

open Site (Nowhere Within Below Beneath)

/-! What entries elsewhere leave as it was recalled -/

section

variable {id : Nat} {σ : Site} {own : Site → Prop} (hr : σ.root = some id)

include hr

theorem chosen_elsewhere {l j : List Entry} {τ : Site} (hτ : σ.Within τ) (ho : ¬ own τ)
    (hl : ∀ e ∈ l, ∀ τ, e.site? = some τ → τ.root = some id → own τ) :
    chosen (l ++ j) τ = chosen j τ := by
  apply chosen_append
  exact fun e he hs => ho (hl e he τ hs (hτ.root_eq.trans hr))

theorem Step.recalls_stable (s : Step Command) (p : s.Progress)
    (ho : ∀ τ, σ.Within τ → ¬ own τ) : Stable id own fun j => s.Recalls σ p (chosen j) :=
  fun _ _ hl h => h.congr fun τ hτ => chosen_elsewhere hr hτ (ho τ hτ) hl

theorem recallsChildren_stable {b : Bool} {n : Nat} (l : List (Step Command)) (p : Children l)
    (ho : ∀ τ, σ.Beneath b n τ → ¬ own τ) :
    Stable id own fun j => recallsChildren l σ b n p (chosen j) :=
  fun _ _ hl h => recallsChildren_congr l σ b n p
    (fun τ hτ => chosen_elsewhere hr hτ.below.within (ho τ hτ) hl) h

theorem recallsLanes_stable {n : Nat} (l : List (Step Command)) (p : Lanes l)
    (ho : ∀ τ, σ.Beneath true n τ → ¬ own τ) :
    Stable id own fun j => recallsLanes l σ n p (chosen j) :=
  fun _ _ hl h => recallsLanes_congr l σ n p
    (fun τ hτ => chosen_elsewhere hr hτ.below.within (ho τ hτ) hl) h

end

/-! A list of steps below a site -/

theorem Cue.site_child (cue : Cue) (i : Nat) :
    (cue.child i).site = cue.site.branch true (0 + i) := by
  rw [Nat.zero_add]
  rfl

theorem Cue.site_otherwise (cue : Cue) (i : Nat) :
    (cue.otherwise i).site = cue.site.branch false (0 + i) := by
  rw [Nat.zero_add]
  rfl

def Listed (steps : Site → Option (Step Command)) (id : Nat) (σ : Site) (b : Bool)
    (l : List (Step Command)) (n : Nat) (p : Children l) (j : List Entry) : Prop :=
  Keeping steps id (recallsChildren l σ b n) p j ∧ Granted steps σ b j

def Laned (steps : Site → Option (Step Command)) (id : Nat) (σ : Site)
    (l : List (Step Command)) (n : Nat) (p : Lanes l) (j : List Entry) : Prop :=
  Keeping steps id (recallsLanes l σ n) p j ∧ Granted steps σ true j

/-- Where no choice stands there is nothing to grant. -/
theorem Play.Secures.ungranted {π α : Type} {id : Nat} {steps : Site → Option (Step Command)}
    {σ : Site} {b : Bool} {P : π → List Entry → Prop} {B : List Entry → Prop} {x : Play π α}
    (h : Play.Secures id (fun p j => P p j ∧ Granted steps σ b j) x
      fun p j => P p j ∧ Granted steps σ b j) (hc : ¬ Chooses steps σ) :
    Play.Secures id (fun p j => P p j ∧ B j) x P :=
  h.mono (fun _ _ hp => ⟨hp.1, fun hσ => absurd hσ hc⟩) fun _ _ hp => hp.1

section

variable {α : Type} {steps : Site → Option (Step Command)} {id : Nat} {σ : Site} {b : Bool}
  {s : Step Command} {rest : List (Step Command)} {n : Nat}

theorem not_beneath_of_branch {i : Nat} {τ : Site} (hi : i < n) (h : (σ.branch b i).Within τ) :
    ¬ σ.Beneath b n τ := by
  rintro ⟨k, hk, h'⟩
  obtain ⟨-, rfl⟩ := Site.branch_unique h h'
  omega

variable (hr : σ.root = some id)

include hr

theorem listed_stable {l : List (Step Command)} (p : Children l) :
    Stable id Nowhere (Listed steps id σ b l n p) :=
  (Fitting.stable.and (recallsChildren_stable hr l p fun _ _ h => h)).and (.granted hr fun h => h)

theorem laned_stable {l : List (Step Command)} (p : Lanes l) :
    Stable id Nowhere (Laned steps id σ l n p) :=
  (Fitting.stable.and (recallsLanes_stable hr l p fun _ _ h => h)).and (.granted hr fun h => h)

theorem listed_first {x : Play s.Progress α} (hx : x.Follows (Within (σ.branch b n)))
    (h : Play.Secures id (Callable steps id (σ.branch b n) (s.Recalls (σ.branch b n))) x
      (Callable steps id (σ.branch b n) (s.Recalls (σ.branch b n)))) :
    Play.Secures id (Listed steps id σ b (s :: rest) n) (Play.first x)
      (Listed steps id σ b (s :: rest) n) := by
  apply Play.Secures.part
  intro a
  have hrest : Stable id (Within (σ.branch b n))
      fun j => recallsChildren rest σ b (n + 1) a.2 (chosen j) :=
    recallsChildren_stable hr rest a.2 fun τ hτ h =>
      not_beneath_of_branch (Nat.lt_succ_self n) h hτ
  apply (h.frame hx hrest).mono
  · rintro p j ⟨rfl, ⟨hfit, hs, hl⟩, hg⟩
    exact ⟨⟨⟨hfit, hs⟩, welcome_branch.mpr hg⟩, hl⟩
  · rintro p j ⟨⟨⟨hfit, hs⟩, hw⟩, hl⟩
    exact ⟨⟨hfit, hs, hl⟩, welcome_branch.mp hw⟩

theorem listed_second {x : Play (Children rest) α} {m : Nat} (hm : n < m)
    (hx : x.Follows (Within (σ.branch b m)))
    (h : Play.Secures id (Listed steps id σ b rest (n + 1)) x
      (Listed steps id σ b rest (n + 1))) :
    Play.Secures id (Listed steps id σ b (s :: rest) n) (Play.second x)
      (Listed steps id σ b (s :: rest) n) := by
  apply Play.Secures.part
  intro a
  have hfirst : Stable id (Within (σ.branch b m))
      fun j => s.Recalls (σ.branch b n) a.1 (chosen j) :=
    s.recalls_stable (by simpa using hr) a.1 fun τ hτ h =>
      absurd (Site.branch_unique hτ h).2 (by omega)
  apply (h.frame hx hfirst).mono
  · rintro p j ⟨rfl, ⟨hfit, hs, hl⟩, hg⟩
    exact ⟨⟨⟨hfit, hl⟩, hg⟩, hs⟩
  · rintro p j ⟨⟨⟨hfit, hl⟩, hg⟩, hs⟩
    exact ⟨⟨hfit, hs, hl⟩, hg⟩

theorem laned_first {x : Play (Lane s.Progress) α} (hx : x.Follows (Within (σ.branch true n)))
    (h : Play.Secures id
      (fun a => Callable steps id (σ.branch true n) (s.Recalls (σ.branch true n)) a.child) x
      fun a => Callable steps id (σ.branch true n) (s.Recalls (σ.branch true n)) a.child) :
    Play.Secures id (Laned steps id σ (s :: rest) n) (Play.first x)
      (Laned steps id σ (s :: rest) n) := by
  apply Play.Secures.part
  intro a
  have hrest : Stable id (Within (σ.branch true n))
      fun j => recallsLanes rest σ (n + 1) a.2 (chosen j) :=
    recallsLanes_stable hr rest a.2 fun τ hτ h =>
      not_beneath_of_branch (Nat.lt_succ_self n) h hτ
  apply (h.frame hx hrest).mono
  · rintro p j ⟨rfl, ⟨hfit, hs, hl⟩, hg⟩
    exact ⟨⟨⟨hfit, hs⟩, welcome_branch.mpr hg⟩, hl⟩
  · rintro p j ⟨⟨⟨hfit, hs⟩, hw⟩, hl⟩
    exact ⟨⟨hfit, hs, hl⟩, welcome_branch.mp hw⟩

theorem laned_second {x : Play (Lanes rest) α} (hx : x.Follows (Beneath σ true (n + 1)))
    (h : Play.Secures id (Laned steps id σ rest (n + 1)) x (Laned steps id σ rest (n + 1))) :
    Play.Secures id (Laned steps id σ (s :: rest) n) (Play.second x)
      (Laned steps id σ (s :: rest) n) := by
  apply Play.Secures.part
  intro a
  have hfirst : Stable id (Beneath σ true (n + 1))
      fun j => s.Recalls (σ.branch true n) a.1.child (chosen j) :=
    s.recalls_stable (by simpa using hr) a.1.child fun τ hτ =>
      not_beneath_of_branch (Nat.lt_succ_self n) hτ
  apply (h.frame hx hfirst).mono
  · rintro p j ⟨rfl, ⟨hfit, hs, hl⟩, hg⟩
    exact ⟨⟨⟨hfit, hl⟩, hg⟩, hs⟩
  · rintro p j ⟨⟨⟨hfit, hl⟩, hg⟩, hs⟩
    exact ⟨⟨hfit, hs, hl⟩, hg⟩

end

section

variable {run : Runner} (hrun : run.Follows) {u : Stage} {id : Nat}

/-- A step without children recalls nothing, whatever it does. -/
theorem Step.leaf_secures {α : Type} {s : Step Command} (h : s.isLeaf = true) {σ : Site}
    {x : Play s.Progress α} (hx : x.Follows Nowhere) :
    Play.Secures id (Keeping u.step? id (s.Recalls σ)) x (Keeping u.step? id (s.Recalls σ)) := by
  apply Play.Secures.of_quiet hx
  intro p q
  have hrecalls : ∀ p j, s.Recalls σ p (chosen j) := fun p j => Step.recalls_leaf h σ p _
  refine ⟨fun l j hl hp => ⟨Fitting.stable l j hl hp.1, hrecalls _ _⟩, fun j hp => ?_⟩
  exact ⟨hp.1, hrecalls _ _⟩

/-- A list of steps below a site, driven as its children are. -/
theorem Track.steps_secures {σ : Site} {b : Bool} {dt : Float32} (l : List (Step Command))
    (cue : Nat → Cue) (onFailure : OnFailure)
    (h : ∀ i fresh, Play.Secures id (Listed u.step? id σ b l 0)
      (driveNth run dt l (cue i) i i fresh) (Listed u.step? id σ b l 0)) :
    Play.Secures id (fun t => Listed u.step? id σ b l 0 t.children)
      (Track.tick l.length onFailure fun i fresh => driveNth run dt l (cue i) i i fresh)
      fun t => Listed u.step? id σ b l 0 t.children := Track.tick_secures h

include hrun

theorem Step.exit_secures (s : Step Command) (cue : Cue) :
    Play.Secures id (Keeping u.step? id (s.Recalls cue.site)) (s.exit run cue)
      (Keeping u.step? id (s.Recalls cue.site)) := by
  cases hleaf : s.isLeaf with
  | true => exact Step.leaf_secures hleaf (Step.exit_follows hrun s cue)
  | false =>
    cases s <;> first | exact .pure () fun _ _ hp => hp | exact absurd hleaf (by simp [Step.isLeaf])

/-- To exit a step on its call. -/
theorem Step.exited_secures (s : Step Command) (cue : Cue) (hroot : cue.site.root = some id) :
    Play.Secures id (Callable u.step? id cue.site (s.Recalls cue.site))
      (cue.exit (s.exit run cue)) (Callable u.step? id cue.site (s.Recalls cue.site)) :=
  Cue.exit_secures hroot (Step.exit_follows hrun s cue) (Step.exit_secures hrun s cue)

/-- To enter a step that is no choice on its call. -/
theorem Step.entered_secures_of {s : Step Command} (hs : s.isChoice = false) {cue : Cue}
    (hroot : cue.site.root = some id) (hstep : u.step? cue.site = some s)
    (h : Play.Secures id (Keeping u.step? id (s.Recalls cue.site)) (s.enter run cue)
      (Keeping u.step? id (s.Recalls cue.site))) :
    Play.Secures id (Callable u.step? id cue.site (s.Recalls cue.site))
      (cue.enter (s.enter run cue)) (Callable u.step? id cue.site (s.Recalls cue.site)) := by
  apply Cue.enter_secures hroot (not_chooses hstep hs) _ (Step.enter_follows hrun s cue) h
  intro p B C hBC hp
  apply Step.Recalls.congr_below s cue.site p _ _ hp
  · intro τ hτ
    apply hBC
    rintro rfl
    exact Site.not_below_self _ hτ
  · intro hchoice
    rw [hs] at hchoice
    exact absurd hchoice (by simp)

theorem Step.entered_secures_leaf {s : Step Command} (h : s.isLeaf = true) (cue : Cue)
    (hroot : cue.site.root = some id) (hstep : u.step? cue.site = some s) :
    Play.Secures id (Callable u.step? id cue.site (s.Recalls cue.site))
      (cue.enter (s.enter run cue)) (Callable u.step? id cue.site (s.Recalls cue.site)) := by
  have hs : s.isChoice = false := by
    cases s <;> first | rfl | exact absurd h (by simp [Step.isLeaf])
  exact Step.entered_secures_of hrun hs hroot hstep
    (Step.leaf_secures h (Step.enter_follows_leaf hrun s h cue))

theorem Step.tick_secures_leaf {s : Step Command} (h : s.isLeaf = true) (cue : Cue)
    {dt : Float32} : Play.Secures id
      (fun p j => Keeping u.step? id (s.Recalls cue.site) p j ∧ Phase.of cue.site j = .ticking)
      (s.tick run dt cue) (Keeping u.step? id (s.Recalls cue.site)) :=
  (Step.leaf_secures h (Step.tick_follows_leaf hrun s h cue)).mono (fun _ _ hp => hp.1)
    fun _ _ hp => hp

mutual

/-- To enter a step on its call. -/
theorem Step.entered_secures : (s : Step Command) → (cue : Cue) → cue.site.root = some id →
    u.step? cue.site = some s →
    Play.Secures id (Callable u.step? id cue.site (s.Recalls cue.site))
      (cue.enter (s.enter run cue)) (Callable u.step? id cue.site (s.Recalls cue.site))
  | .choose _ yes no, cue, hroot, _ => ChoiceProgress.enter_secures hrun hroot
      (fun p _ _ h => recallsChildren_congr yes cue.site true 0 p fun τ hτ => h τ hτ.below)
      (fun p _ _ h => recallsChildren_congr no cue.site false 0 p fun τ hτ => h τ hτ.below)
  | .bounded _ _ steps, cue, hroot, hstep =>
    Step.entered_secures_of hrun rfl hroot hstep (BoundedProgress.enter_secures
      (J := Keeping u.step? id (recallsChildren steps cue.site true 0)))
  | .retry _ steps, cue, hroot, hstep =>
    Step.entered_secures_of hrun rfl hroot hstep (RetryProgress.enter_secures
      (J := Keeping u.step? id (recallsChildren steps cue.site true 0)))
  | .group _, _, hroot, hstep =>
    Step.entered_secures_of hrun rfl hroot hstep (.change fun _ _ hp => hp)
  | .parallel mode steps, cue, hroot, hstep => by
    have hc : ¬ Chooses u.step? cue.site := not_chooses hstep rfl
    have hlanes : Play.Secures id (Laned u.step? id cue.site steps 0)
        (enterLanes run steps cue 0) (Laned u.step? id cue.site steps 0) :=
      enterLanes_secures steps cue 0 hroot fun i s hs => by
        rw [Nat.zero_add]
        exact (u.step?_child hstep i).trans hs
    apply Step.entered_secures_of hrun rfl hroot hstep
    exact hlanes.mono (fun _ _ hp => ⟨hp, fun h => absurd h hc⟩) fun _ _ hp => hp.1
  | .wait _, cue, hroot, hstep => Step.entered_secures_leaf hrun rfl cue hroot hstep
  | .frames _, cue, hroot, hstep => Step.entered_secures_leaf hrun rfl cue hroot hstep
  | .tween _, cue, hroot, hstep => Step.entered_secures_leaf hrun rfl cue hroot hstep
  | .await _ _ _, cue, hroot, hstep => Step.entered_secures_leaf hrun rfl cue hroot hstep
  | .barrier _ _, cue, hroot, hstep => Step.entered_secures_leaf hrun rfl cue hroot hstep
  | .probe _ _, cue, hroot, hstep => Step.entered_secures_leaf hrun rfl cue hroot hstep
  | .publish _, cue, hroot, hstep => Step.entered_secures_leaf hrun rfl cue hroot hstep
  | .invoke _ _, cue, hroot, hstep => Step.entered_secures_leaf hrun rfl cue hroot hstep
  | .component _ _ _, cue, hroot, hstep => Step.entered_secures_leaf hrun rfl cue hroot hstep
  | .call _, cue, hroot, hstep => Step.entered_secures_leaf hrun rfl cue hroot hstep
  | .startSequence _, cue, hroot, hstep => Step.entered_secures_leaf hrun rfl cue hroot hstep
  | .stopSequence _, cue, hroot, hstep => Step.entered_secures_leaf hrun rfl cue hroot hstep
  | .custom _ _ _ _, cue, hroot, hstep => Step.entered_secures_leaf hrun rfl cue hroot hstep

theorem enterLanes_secures : (l : List (Step Command)) → (cue : Cue) → (n : Nat) →
    cue.site.root = some id →
    (∀ i s, l[i]? = some s → u.step? (cue.site.child (n + i)) = some s) →
    Play.Secures id (Laned u.step? id cue.site l n) (enterLanes run l cue n)
      (Laned u.step? id cue.site l n)
  | [], _, _, _, _ => .pure () fun _ _ hp => hp
  | s :: rest, cue, n, hroot, hsteps => by
    have hlane := Lane.enter_secures
      (Step.entered_secures s (cue.child n) hroot (hsteps 0 s rfl))
    have hrest := enterLanes_secures rest cue (n + 1) hroot fun i s' hs => by
      rw [Nat.add_assoc, Nat.add_comm 1 i]
      exact hsteps (i + 1) s' hs
    have hfollows : (Lane.enter (cue.child n) (s.enter run (cue.child n))).Follows
        (Within (cue.site.branch true n)) :=
      Lane.enter_follows (Step.enter_follows hrun s (cue.child n))
    refine .andThen (laned_first hroot hfollows hlane) fun _ => ?_
    exact laned_second hroot (enterLanes_follows hrun rest cue (n + 1)) hrest

end

theorem exitNth_secures {σ : Site} {b : Bool} (hroot : σ.root = some id) : (l : List (Step Command)) →
    (cue : Cue) → (n m : Nat) → cue.site = σ.branch b (n + m) →
    Play.Secures id (Listed u.step? id σ b l n) (exitNth run l cue m) (Listed u.step? id σ b l n)
  | [], _, _, _, _ => .pure () fun _ _ hp => hp
  | s :: rest, cue, n, 0, hcue => by
    have hsite : σ.branch b n = cue.site := hcue.symm
    have hroot' : cue.site.root = some id := by rw [hcue, Site.root_branch, hroot]
    apply listed_first hroot <;> rw [hsite]
    · exact Cue.exit_follows (Step.exit_follows hrun s cue)
    · exact Step.exited_secures hrun s cue hroot'
  | s :: rest, cue, n, m + 1, hcue => by
    apply listed_second (m := n + (m + 1)) hroot (by omega)
    · rw [← hcue]
      exact exitNth_follows hrun rest cue m
    · exact exitNth_secures hroot rest cue (n + 1) m (by rw [hcue]; congr 1; omega)

variable {dt : Float32}

mutual

/-- To tick a step, in the midst of its call. -/
theorem Step.tick_secures : (s : Step Command) → (cue : Cue) → cue.site.root = some id →
    u.step? cue.site = some s → Play.Secures id
      (fun p j => Keeping u.step? id (s.Recalls cue.site) p j ∧ Phase.of cue.site j = .ticking)
      (s.tick run dt cue) (Keeping u.step? id (s.Recalls cue.site))
  | .choose _ yes no, cue, hroot, hstep => by
    have hyes := Track.steps_secures yes cue.child .advance fun i fresh =>
      driveNth_secures hroot yes (cue.child i) i 0 i fresh (cue.site_child i)
        fun s hs => (u.step?_child hstep i).trans hs
    have hno := Track.steps_secures no cue.otherwise .advance fun i fresh =>
      driveNth_secures hroot no (cue.otherwise i) i 0 i fresh (cue.site_otherwise i)
        fun s hs => (u.step?_otherwise hstep i).trans hs
    apply ChoiceProgress.tick_secures hroot _ _ _ _ _ _ hyes hno
    · exact Beneath cue.site true 0
    · exact Beneath cue.site false 0
    · exact Track.tick_follows fun i fresh =>
        (driveNth_follows hrun yes (cue.child i) i i fresh).widen fun _ h => ⟨i, by omega, h⟩
    · exact Track.tick_follows fun i fresh =>
        (driveNth_follows hrun no (cue.otherwise i) i i fresh).widen fun _ h => ⟨i, by omega, h⟩
    · exact fun h => Site.not_below_self _ h.below
    · exact fun h => Site.not_below_self _ h.below
    · exact fun y => recallsChildren_stable hroot yes y fun τ => Beneath.disjoint (by simp)
    · exact fun n => recallsChildren_stable hroot no n fun τ => Beneath.disjoint (by simp)
  | .bounded seconds policy steps, cue, hroot, hstep => by
    have hbody := Track.steps_secures steps cue.child .advance fun i fresh =>
      driveNth_secures hroot steps (cue.child i) i 0 i fresh (cue.site_child i)
        fun s hs => (u.step?_child hstep i).trans hs
    have hcancel : Play.Secures id
        (fun t => Listed u.step? id cue.site true steps 0 t.children)
        (Track.cancel steps.length fun i => exitNth run steps (cue.child i) i)
        fun t => Listed u.step? id cue.site true steps 0 t.children :=
      Track.cancel_secures fun i =>
        exitNth_secures hrun hroot steps (cue.child i) 0 i (cue.site_child i)
    exact (BoundedProgress.tick_secures (listed_stable hroot) hbody hcancel).ungranted
      (not_chooses hstep rfl)
  | .retry _ steps, cue, hroot, hstep => by
    have hbody := Track.steps_secures steps cue.child .propagate fun i fresh =>
      driveNth_secures hroot steps (cue.child i) i 0 i fresh (cue.site_child i)
        fun s hs => (u.step?_child hstep i).trans hs
    exact (RetryProgress.tick_secures (listed_stable hroot) hbody).ungranted
      (not_chooses hstep rfl)
  | .group steps, cue, hroot, hstep => by
    have hbody := Track.steps_secures steps cue.child .propagate fun i fresh =>
      driveNth_secures hroot steps (cue.child i) i 0 i fresh (cue.site_child i)
        fun s hs => (u.step?_child hstep i).trans hs
    exact hbody.ungranted (not_chooses hstep rfl)
  | .parallel mode steps, cue, hroot, hstep => by
    have hlanes : Play.Secures id (Laned u.step? id cue.site steps 0)
        (tickLanes run dt steps cue 0) (Laned u.step? id cue.site steps 0) :=
      tickLanes_secures steps cue 0 hroot fun i s hs => by
        rw [Nat.zero_add]
        exact (u.step?_child hstep i).trans hs
    have hparallel : Play.Secures id (Laned u.step? id cue.site steps 0)
        ((Step.parallel mode steps).tick run dt cue) (Laned u.step? id cue.site steps 0) :=
      .andThen hlanes fun _ => .readThen fun p => mode.conclude_secures (laned_stable hroot) _ _ _
    exact hparallel.ungranted (not_chooses hstep rfl)
  | .wait _, cue, _, _ => Step.tick_secures_leaf hrun rfl cue
  | .frames _, cue, _, _ => Step.tick_secures_leaf hrun rfl cue
  | .tween _, cue, _, _ => Step.tick_secures_leaf hrun rfl cue
  | .await _ _ _, cue, _, _ => Step.tick_secures_leaf hrun rfl cue
  | .barrier _ _, cue, _, _ => Step.tick_secures_leaf hrun rfl cue
  | .probe _ _, cue, _, _ => Step.tick_secures_leaf hrun rfl cue
  | .publish _, cue, _, _ => Step.tick_secures_leaf hrun rfl cue
  | .invoke _ _, cue, _, _ => Step.tick_secures_leaf hrun rfl cue
  | .component _ _ _, cue, _, _ => Step.tick_secures_leaf hrun rfl cue
  | .call _, cue, _, _ => Step.tick_secures_leaf hrun rfl cue
  | .startSequence _, cue, _, _ => Step.tick_secures_leaf hrun rfl cue
  | .stopSequence _, cue, _, _ => Step.tick_secures_leaf hrun rfl cue
  | .custom _ _ _ _, cue, _, _ => Step.tick_secures_leaf hrun rfl cue

theorem driveNth_secures {σ : Site} {b : Bool} (hroot : σ.root = some id) :
    (l : List (Step Command)) → (cue : Cue) → (index n m : Nat) → (fresh : Bool) →
    cue.site = σ.branch b (n + m) → (∀ s, l[m]? = some s → u.step? cue.site = some s) →
    Play.Secures id (Listed u.step? id σ b l n) (driveNth run dt l cue index m fresh)
      (Listed u.step? id σ b l n)
  | [], _, _, _, _, _, _, _ => .pure _ fun _ _ hp => hp
  | s :: rest, cue, index, n, 0, fresh, hcue, hstep => by
    have hsite : σ.branch b n = cue.site := hcue.symm
    have hroot' : cue.site.root = some id := by rw [hcue, Site.root_branch, hroot]
    have hstable : ∀ p : s.Progress, Stable id Nowhere fun j => s.Recalls cue.site p (chosen j) :=
      fun p => s.recalls_stable hroot' p fun _ _ h => h
    apply listed_first hroot <;> rw [hsite]
    · exact Cue.drive_follows (Step.enter_follows hrun s cue) (Step.tick_follows hrun s cue)
        (Step.exit_follows hrun s cue)
    · exact Cue.drive_secures (Cue.callable_stable hstable hroot')
        (Step.entered_secures hrun s cue hroot' (hstep s rfl))
        (Cue.tick_secures hroot' (Step.tick_follows hrun s cue)
          (Step.tick_secures s cue hroot' (hstep s rfl)))
        (Step.exited_secures hrun s cue hroot')
  | s :: rest, cue, index, n, m + 1, fresh, hcue, hstep => by
    apply listed_second (m := n + (m + 1)) hroot (by omega)
    · rw [← hcue]
      exact driveNth_follows hrun rest cue index m fresh
    · exact driveNth_secures hroot rest cue index (n + 1) m fresh (by rw [hcue]; congr 1; omega)
        hstep

theorem tickLanes_secures : (l : List (Step Command)) → (cue : Cue) → (n : Nat) →
    cue.site.root = some id →
    (∀ i s, l[i]? = some s → u.step? (cue.site.child (n + i)) = some s) →
    Play.Secures id (Laned u.step? id cue.site l n) (tickLanes run dt l cue n)
      (Laned u.step? id cue.site l n)
  | [], _, _, _, _ => .pure _ fun _ _ hp => hp
  | s :: rest, cue, n, hroot, hsteps => by
    have hroot' : (cue.child n).site.root = some id := hroot
    have htick : Play.Secures id
        (Callable u.step? id (cue.child n).site (s.Recalls (cue.child n).site))
        ((cue.child n).tick dt (s.tick run dt (cue.child n)))
        (Callable u.step? id (cue.child n).site (s.Recalls (cue.child n).site)) :=
      Cue.tick_secures hroot' (Step.tick_follows hrun s (cue.child n))
        (Step.tick_secures s (cue.child n) hroot (hsteps 0 s rfl))
    have hlane := Lane.tick_secures htick (Step.exited_secures hrun s (cue.child n) hroot')
    have hrest := tickLanes_secures rest cue (n + 1) hroot fun i s' hs => by
      rw [Nat.add_assoc, Nat.add_comm 1 i]
      exact hsteps (i + 1) s' hs
    have hfollows : (Lane.tick (cue.child n) dt (s.tick run dt (cue.child n))
        (s.exit run (cue.child n))).Follows (Within (cue.site.branch true n)) :=
      Lane.tick_follows (Step.tick_follows hrun s (cue.child n))
        (Step.exit_follows hrun s (cue.child n))
    refine .andThen (laned_first hroot hfollows hlane) fun status => ?_
    refine .andThen (laned_second hroot (tickLanes_follows hrun rest cue (n + 1)) hrest)
      fun _ => ?_
    exact .pure _ fun _ _ hp => hp

end

end

end Sequencer
