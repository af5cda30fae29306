import Sequencer.Proofs.Choice.Steps
import Sequencer.Proofs.Visits

/-!
# Every call is recorded

By recursion on the tree of a step: whatever a step is called for, and whether or not it halts,
the calls of every step below it stay the visits that left it as it is. So a call of the step
itself is one visit more.
-/

set_option autoImplicit false

namespace Sequencer

open Site (Nowhere Within Below Beneath)

/-! What entries elsewhere leave recorded -/

section

variable {id : Nat} {σ : Site} {own : Site → Prop} (hr : σ.root = some id)

include hr

theorem callsAt_elsewhere {l j : List Entry} {τ : Site} (hτ : σ.Within τ) (ho : ¬ own τ)
    (hl : ∀ e ∈ l, ∀ τ, e.site? = some τ → τ.root = some id → own τ) :
    callsAt τ (l ++ j) = callsAt τ j := by
  apply callsAt_append
  exact fun e he hs => ho (hl e he τ hs (hτ.root_eq.trans hr))

theorem Step.recordedWithin_stable (s : Step Command) (p : s.Progress)
    (ho : ∀ τ, σ.Within τ → ¬ own τ) : Stable id own (s.RecordedWithin σ p) :=
  fun _ _ hl h => h.congr fun τ hτ => callsAt_elsewhere hr hτ (ho τ hτ) hl

theorem recordedChildren_stable {b : Bool} {n : Nat} (l : List (Step Command)) (p : Children l)
    (ho : ∀ τ, σ.Beneath b n τ → ¬ own τ) : Stable id own (recordedChildren l σ b n p) :=
  fun _ _ hl h => recordedChildren_congr l σ b n p
    (fun τ hτ => callsAt_elsewhere hr hτ.below.within (ho τ hτ) hl) h

theorem recordedLanes_stable {n : Nat} (l : List (Step Command)) (p : Lanes l)
    (ho : ∀ τ, σ.Beneath true n τ → ¬ own τ) : Stable id own (recordedLanes l σ n p) :=
  fun _ _ hl h => recordedLanes_congr l σ n p
    (fun τ hτ => callsAt_elsewhere hr hτ.below.within (ho τ hτ) hl) h

end

/-! A list of steps below a site -/

section

variable {α : Type} {id : Nat} {σ : Site} {b : Bool} {s : Step Command}
  {rest : List (Step Command)} {n : Nat} (hr : σ.root = some id)

include hr

theorem recordedChildren_first {x : Play s.Progress α} (hx : x.Follows (Within (σ.branch b n)))
    (h : Play.Secures id (s.RecordedWithin (σ.branch b n)) x (s.RecordedWithin (σ.branch b n))) :
    Play.Secures id (recordedChildren (s :: rest) σ b n) (Play.first x)
      (recordedChildren (s :: rest) σ b n) := by
  apply Play.Secures.part
  intro a
  have hrest : Stable id (Within (σ.branch b n)) (recordedChildren rest σ b (n + 1) a.2) :=
    recordedChildren_stable hr rest a.2 fun τ hτ h =>
      not_beneath_of_branch (Nat.lt_succ_self n) h hτ
  apply (h.frame hx hrest).mono
  · rintro p j ⟨rfl, hp⟩
    exact hp
  · exact fun _ _ hp => hp

theorem recordedChildren_second {x : Play (Children rest) α} {m : Nat} (hm : n < m)
    (hx : x.Follows (Within (σ.branch b m)))
    (h : Play.Secures id (recordedChildren rest σ b (n + 1)) x
      (recordedChildren rest σ b (n + 1))) :
    Play.Secures id (recordedChildren (s :: rest) σ b n) (Play.second x)
      (recordedChildren (s :: rest) σ b n) := by
  apply Play.Secures.part
  intro a
  have hfirst : Stable id (Within (σ.branch b m)) (s.RecordedWithin (σ.branch b n) a.1) :=
    s.recordedWithin_stable (by simpa using hr) a.1 fun τ hτ h =>
      absurd (Site.branch_unique hτ h).2 (by omega)
  apply (h.frame hx hfirst).mono
  · rintro p j ⟨rfl, hs, hl⟩
    exact ⟨hl, hs⟩
  · exact fun _ _ hp => ⟨hp.2, hp.1⟩

theorem recordedLanes_first {x : Play (Lane s.Progress) α}
    (hx : x.Follows (Within (σ.branch true n)))
    (h : Play.Secures id (fun a => s.RecordedWithin (σ.branch true n) a.child) x
      fun a => s.RecordedWithin (σ.branch true n) a.child) :
    Play.Secures id (recordedLanes (s :: rest) σ n) (Play.first x)
      (recordedLanes (s :: rest) σ n) := by
  apply Play.Secures.part
  intro a
  have hrest : Stable id (Within (σ.branch true n)) (recordedLanes rest σ (n + 1) a.2) :=
    recordedLanes_stable hr rest a.2 fun τ hτ h =>
      not_beneath_of_branch (Nat.lt_succ_self n) h hτ
  apply (h.frame hx hrest).mono
  · rintro p j ⟨rfl, hp⟩
    exact hp
  · exact fun _ _ hp => hp

theorem recordedLanes_second {x : Play (Lanes rest) α} (hx : x.Follows (Beneath σ true (n + 1)))
    (h : Play.Secures id (recordedLanes rest σ (n + 1)) x (recordedLanes rest σ (n + 1))) :
    Play.Secures id (recordedLanes (s :: rest) σ n) (Play.second x)
      (recordedLanes (s :: rest) σ n) := by
  apply Play.Secures.part
  intro a
  have hfirst : Stable id (Beneath σ true (n + 1))
      (s.RecordedWithin (σ.branch true n) a.1.child) :=
    s.recordedWithin_stable (by simpa using hr) a.1.child fun τ hτ =>
      not_beneath_of_branch (Nat.lt_succ_self n) hτ
  apply (h.frame hx hfirst).mono
  · rintro p j ⟨rfl, hs, hl⟩
    exact ⟨hl, hs⟩
  · exact fun _ _ hp => ⟨hp.2, hp.1⟩

end

/-! A choice, given its lists -/

namespace ChoiceProgress

variable {π ρ : Type} {id : Nat} {J : π → List Entry → Prop} {K : ρ → List Entry → Prop}

theorem enter_keeps_lists {run : Runner} (hrun : run.Follows) {cue : Cue}
    {question : Question Command} (hJ : ∀ y, Stable id Nowhere (J y))
    (hK : ∀ n, Stable id Nowhere (K n)) :
    Play.Secures id (fun p : ChoiceProgress π ρ => fun j => J p.yes.children j ∧ K p.no.children j)
      (ChoiceProgress.enter run cue question)
      fun p j => J p.yes.children j ∧ K p.no.children j := by
  refine .andThen (.change fun _ _ hp => hp) fun _ => .readThen fun p => ?_
  have hask : (inquire run (.step cue.site) cue.owner p.polls question).Follows Nowhere :=
    inquire_follows hrun _ _ _ question
  refine .andThen (.onStage hask fun p => (hJ _).and (hK _)) fun answer => ?_
  exact .ite (.change fun _ _ hp => hp) (.change fun _ _ hp => hp)

/-- The list that is driven and the other one keep out of each other's way. -/
theorem tick_keeps_lists {yes : Play (Track π) Status} {no : Play (Track ρ) Status}
    {own own' : Site → Prop} (hyf : yes.Follows own) (hnf : no.Follows own')
    (hJ : ∀ y, Stable id own' (J y)) (hK : ∀ n, Stable id own (K n))
    (hyes : Play.Secures id (fun t : Track π => J t.children) yes fun t => J t.children)
    (hno : Play.Secures id (fun t : Track ρ => K t.children) no fun t => K t.children) :
    Play.Secures id (fun p : ChoiceProgress π ρ => fun j => J p.yes.children j ∧ K p.no.children j)
      (ChoiceProgress.tick yes no) fun p j => J p.yes.children j ∧ K p.no.children j := by
  refine .readThen fun p => .ite (.part fun a => ?_) (.part fun a => ?_)
  · apply (hno.frame hnf (hJ a.yes.children)).mono
    · rintro t j ⟨rfl, hy, hn⟩
      exact ⟨hn, hy⟩
    · exact fun _ _ hp => ⟨hp.2, hp.1⟩
  · apply (hyes.frame hyf (hK a.no.children)).mono
    · rintro t j ⟨rfl, hp⟩
      exact hp
    · exact fun _ _ hp => hp

end ChoiceProgress

/-! Calls -/

/-- Only what a play makes of the progress and of the stage matters. -/
theorem Play.Secures.of_same {π α β : Type} {id : Nat} {P Q : π → List Entry → Prop}
    {x : Play π α} {y : Play π β} (h : Play.Secures id P x Q) (hxy : ∀ z, (y z).2 = (x z).2) :
    Play.Secures id P y Q := by
  intro p s hs hp r q t ht
  have hst := (hxy (p, s)).symm.trans (congrArg Prod.snd ht)
  exact h p s hs hp (x (p, s)).1 q t (Prod.ext rfl hst)

namespace Cue

variable {s : Step Command} {run : Runner} (cue : Cue)

def call (run : Runner) (s : Step Command) (c : Call) : Play s.Progress (Option Status) := do
  Play.note (.called cue.site c)
  let r ← s.answer run cue c
  Play.note (.returned cue.site r)
  return r

theorem enter_call (z : s.Progress × Stage) :
    (cue.enter (s.enter run cue) z).2 = (cue.call run s .enter z).2 := by
  simp only [call, Cue.enter, Step.answer, Play.bind_apply, Play.note_apply]
  rcases s.enter run cue (z.1, z.2.note (.called cue.site .enter)) with ⟨e | a, q, t⟩ <;> rfl

theorem tick_call {dt : Float32} (z : s.Progress × Stage) :
    (cue.tick dt (s.tick run dt cue) z).2 = (cue.call run s (.tick dt) z).2 := by
  simp only [call, Cue.tick, Step.answer, Play.bind_apply, Play.note_apply]
  rcases s.tick run dt cue (z.1, z.2.note (.called cue.site (.tick dt))) with ⟨e | a, q, t⟩ <;> rfl

theorem exit_call (z : s.Progress × Stage) :
    (cue.exit (s.exit run cue) z).2 = (cue.call run s .exit z).2 := by
  simp only [call, Cue.exit, Step.answer, Play.bind_apply, Play.note_apply]
  rcases s.exit run cue (z.1, z.2.note (.called cue.site .exit)) with ⟨e | a, q, t⟩ <;> rfl

variable {cue} {id : Nat} (hroot : cue.site.root = some id) {c : Call}

include hroot

/-- A call that keeps the record of the steps below is one visit more of the step itself. -/
theorem call_secures (hf : (s.answer run cue c).Follows (Below cue.site))
    (h : Play.Secures id (s.RecordedBelow cue.site) (s.answer run cue c)
      (s.RecordedBelow cue.site)) :
    Play.Secures id (s.RecordedWithin cue.site) (cue.call run s c)
      (s.RecordedWithin cue.site) := by
  intro p w hs hp r q t ht
  have hopened : Playing id (w.note (.called cue.site c)) := ⟨hs.sound.note _, hs.ticking⟩
  have hother : ∀ {e : Entry} {j : List Entry}, e.site? = some cue.site →
      ∀ τ, cue.site.Below τ → callsAt τ (e :: j) = callsAt τ j := by
    intro e j he τ hτ
    apply callsAt_cons_ne
    rw [he]
    rintro heq
    exact Site.not_below_self _ (Option.some.inj heq ▸ hτ)
  rcases hb : s.answer run cue c (p, w.note (.called cue.site c)) with ⟨answer, q', t'⟩
  obtain ⟨hplaying, hbelow⟩ :=
    h p _ hopened (hp.2.congr s _ p (hother rfl)) answer q' t' hb
  obtain ⟨-, l, hl, hown⟩ := hf.playing hopened hb
  have hcalls : callsAt cue.site t'.journal = .called cue.site c :: callsAt cue.site w.journal := by
    rw [hl, callsAt_append]
    · exact callsAt_cons_self rfl _
    · exact fun e he hσ => Site.not_below_self _ (hown e he _ hσ hroot)
  let v : Visit s.Progress := ⟨c, p, answer, q'⟩
  have hv : s.Responds v := ⟨run, cue, _, t', hb⟩
  simp only [call, Play.bind_apply, Play.note_apply, hb] at ht
  cases answer with
  | error e =>
    obtain ⟨-, rfl, rfl⟩ := ht
    exact ⟨hplaying, hp.1.visited (v := v) hv hcalls, hbelow⟩
  | ok a =>
    obtain ⟨-, rfl, rfl⟩ := ht
    refine ⟨⟨hplaying.sound.note _, hplaying.ticking⟩, hp.1.visited (v := v) hv ?_,
      hbelow.congr s _ _ (hother rfl)⟩
    rw [Stage.journal_note, callsAt_cons_self rfl, hcalls]
    rfl

end Cue

section

variable {run : Runner} (hrun : run.Follows) {id : Nat}

theorem Step.leaf_records {α : Type} {s : Step Command} (h : s.isLeaf = true) {σ : Site}
    {x : Play s.Progress α} (hx : x.Follows Nowhere) :
    Play.Secures id (s.RecordedBelow σ) x (s.RecordedBelow σ) := by
  apply Play.Secures.of_quiet hx
  intro p q
  exact ⟨fun _ _ _ _ => s.recordedBelow_leaf h σ p _, fun _ _ => s.recordedBelow_leaf h σ q _⟩

include hrun

/-- To exit a step on its call. -/
theorem Step.exited_records (s : Step Command) (cue : Cue) (hroot : cue.site.root = some id) :
    Play.Secures id (s.RecordedWithin cue.site) (cue.exit (s.exit run cue))
      (s.RecordedWithin cue.site) := by
  have hbody : Play.Secures id (s.RecordedBelow cue.site) (s.exit run cue)
      (s.RecordedBelow cue.site) := by
    cases hleaf : s.isLeaf with
    | true => exact Step.leaf_records hleaf (Step.exit_follows hrun s cue)
    | false =>
      cases s <;> first
        | exact .pure () fun _ _ hp => hp
        | exact absurd hleaf (by simp [Step.isLeaf])
  refine .of_same (Cue.call_secures hroot (c := .exit) ?_ ?_) cue.exit_call
  · exact .bind (Step.exit_follows hrun s cue) fun _ => .pure _
  · exact .andThen hbody fun _ => .pure _ fun _ _ hp => hp

/-- To enter a step on its call, given what entering it does below. -/
theorem Step.entered_records {s : Step Command} {cue : Cue} (hroot : cue.site.root = some id)
    (h : Play.Secures id (s.RecordedBelow cue.site) (s.enter run cue)
      (s.RecordedBelow cue.site)) :
    Play.Secures id (s.RecordedWithin cue.site) (cue.enter (s.enter run cue))
      (s.RecordedWithin cue.site) := by
  refine .of_same (Cue.call_secures hroot (c := .enter) ?_ ?_) cue.enter_call
  · exact .bind (Step.enter_follows hrun s cue) fun _ => .pure _
  · exact .andThen h fun _ => .pure _ fun _ _ hp => hp

/-- To tick a step on its call, given what ticking it does below. -/
theorem Step.ticked_records {s : Step Command} {cue : Cue} {dt : Float32}
    (hroot : cue.site.root = some id)
    (h : Play.Secures id (s.RecordedBelow cue.site) (s.tick run dt cue)
      (s.RecordedBelow cue.site)) :
    Play.Secures id (s.RecordedWithin cue.site) (cue.tick dt (s.tick run dt cue))
      (s.RecordedWithin cue.site) := by
  refine .of_same (Cue.call_secures hroot (c := .tick dt) ?_ ?_) cue.tick_call
  · exact .bind (Step.tick_follows hrun s cue) fun _ => .pure _
  · exact .andThen h fun _ => .pure _ fun _ _ hp => hp

mutual

/-- To enter a step keeps the record of the steps below. -/
theorem Step.enter_records : (s : Step Command) → (cue : Cue) → cue.site.root = some id →
    Play.Secures id (s.RecordedBelow cue.site) (s.enter run cue) (s.RecordedBelow cue.site)
  | .choose _ yes no, _, hroot => ChoiceProgress.enter_keeps_lists hrun
      (fun y => recordedChildren_stable hroot yes y fun _ _ h => h)
      fun n => recordedChildren_stable hroot no n fun _ _ h => h
  | .bounded _ _ steps, cue, _ =>
    BoundedProgress.enter_secures (J := recordedChildren steps cue.site true 0)
  | .retry _ steps, cue, _ =>
    RetryProgress.enter_secures (J := recordedChildren steps cue.site true 0)
  | .group _, _, _ => .change fun _ _ hp => hp
  | .parallel _ steps, cue, hroot => enterLanes_records steps cue 0 hroot
  | .wait _, cue, _ => Step.leaf_records rfl (Step.enter_follows_leaf hrun _ rfl cue)
  | .frames _, cue, _ => Step.leaf_records rfl (Step.enter_follows_leaf hrun _ rfl cue)
  | .tween _, cue, _ => Step.leaf_records rfl (Step.enter_follows_leaf hrun _ rfl cue)
  | .await _ _ _, cue, _ => Step.leaf_records rfl (Step.enter_follows_leaf hrun _ rfl cue)
  | .barrier _ _, cue, _ => Step.leaf_records rfl (Step.enter_follows_leaf hrun _ rfl cue)
  | .probe _ _, cue, _ => Step.leaf_records rfl (Step.enter_follows_leaf hrun _ rfl cue)
  | .publish _, cue, _ => Step.leaf_records rfl (Step.enter_follows_leaf hrun _ rfl cue)
  | .invoke _ _, cue, _ => Step.leaf_records rfl (Step.enter_follows_leaf hrun _ rfl cue)
  | .component _ _ _, cue, _ => Step.leaf_records rfl (Step.enter_follows_leaf hrun _ rfl cue)
  | .call _, cue, _ => Step.leaf_records rfl (Step.enter_follows_leaf hrun _ rfl cue)
  | .startSequence _, cue, _ => Step.leaf_records rfl (Step.enter_follows_leaf hrun _ rfl cue)
  | .stopSequence _, cue, _ => Step.leaf_records rfl (Step.enter_follows_leaf hrun _ rfl cue)
  | .custom _ _ _ _, cue, _ => Step.leaf_records rfl (Step.enter_follows_leaf hrun _ rfl cue)

theorem enterLanes_records : (l : List (Step Command)) → (cue : Cue) → (n : Nat) →
    cue.site.root = some id →
    Play.Secures id (recordedLanes l cue.site n) (enterLanes run l cue n)
      (recordedLanes l cue.site n)
  | [], _, _, _ => .pure () fun _ _ hp => hp
  | s :: rest, cue, n, hroot => by
    have hroot' : (cue.child n).site.root = some id := hroot
    have hlane := Lane.enter_secures
      (Step.entered_records hrun hroot' (Step.enter_records s (cue.child n) hroot'))
    have hfollows : (Lane.enter (cue.child n) (s.enter run (cue.child n))).Follows
        (Within (cue.site.branch true n)) :=
      Lane.enter_follows (Step.enter_follows hrun s (cue.child n))
    refine .andThen (recordedLanes_first hroot hfollows hlane) fun _ => ?_
    exact recordedLanes_second hroot (enterLanes_follows hrun rest cue (n + 1))
      (enterLanes_records rest cue (n + 1) hroot)

end

theorem exitNth_records {σ : Site} {b : Bool} (hroot : σ.root = some id) :
    (l : List (Step Command)) → (cue : Cue) → (n m : Nat) → cue.site = σ.branch b (n + m) →
    Play.Secures id (recordedChildren l σ b n) (exitNth run l cue m) (recordedChildren l σ b n)
  | [], _, _, _, _ => .pure () fun _ _ hp => hp
  | s :: rest, cue, n, 0, hcue => by
    have hsite : σ.branch b n = cue.site := hcue.symm
    have hroot' : cue.site.root = some id := by rw [hcue, Site.root_branch, hroot]
    apply recordedChildren_first hroot <;> rw [hsite]
    · exact Cue.exit_follows (Step.exit_follows hrun s cue)
    · exact Step.exited_records hrun s cue hroot'
  | s :: rest, cue, n, m + 1, hcue => by
    apply recordedChildren_second (m := n + (m + 1)) hroot (by omega)
    · rw [← hcue]
      exact exitNth_follows hrun rest cue m
    · exact exitNth_records hroot rest cue (n + 1) m (by rw [hcue]; congr 1; omega)

variable {dt : Float32}

mutual

/-- To tick a step keeps the record of the steps below. -/
theorem Step.tick_records : (s : Step Command) → (cue : Cue) → cue.site.root = some id →
    Play.Secures id (s.RecordedBelow cue.site) (s.tick run dt cue) (s.RecordedBelow cue.site)
  | .choose _ yes no, cue, hroot => by
    have hyes : Play.Secures id (fun t => recordedChildren yes cue.site true 0 t.children)
        (Track.tick yes.length .advance fun i fresh =>
          driveNth run dt yes (cue.child i) i i fresh)
        fun t => recordedChildren yes cue.site true 0 t.children :=
      Track.tick_secures fun i fresh =>
        driveNth_records hroot yes (cue.child i) i 0 i fresh (cue.site_child i)
    have hno : Play.Secures id (fun t => recordedChildren no cue.site false 0 t.children)
        (Track.tick no.length .advance fun i fresh =>
          driveNth run dt no (cue.otherwise i) i i fresh)
        fun t => recordedChildren no cue.site false 0 t.children :=
      Track.tick_secures fun i fresh =>
        driveNth_records hroot no (cue.otherwise i) i 0 i fresh (cue.site_otherwise i)
    apply ChoiceProgress.tick_keeps_lists _ _ _ _ hyes hno
    · exact Beneath cue.site true 0
    · exact Beneath cue.site false 0
    · exact Track.tick_follows fun i fresh =>
        (driveNth_follows hrun yes (cue.child i) i i fresh).widen fun _ h => ⟨i, by omega, h⟩
    · exact Track.tick_follows fun i fresh =>
        (driveNth_follows hrun no (cue.otherwise i) i i fresh).widen fun _ h => ⟨i, by omega, h⟩
    · exact fun y => recordedChildren_stable hroot yes y fun τ => Beneath.disjoint (by simp)
    · exact fun n => recordedChildren_stable hroot no n fun τ => Beneath.disjoint (by simp)
  | .bounded seconds policy steps, cue, hroot =>
    BoundedProgress.tick_secures
      (fun p => recordedChildren_stable hroot steps p fun _ _ h => h)
      (Track.tick_secures fun i fresh =>
        driveNth_records hroot steps (cue.child i) i 0 i fresh (cue.site_child i))
      (Track.cancel_secures fun i =>
        exitNth_records hrun hroot steps (cue.child i) 0 i (cue.site_child i))
  | .retry _ steps, cue, hroot =>
    RetryProgress.tick_secures (fun p => recordedChildren_stable hroot steps p fun _ _ h => h)
      (Track.tick_secures fun i fresh =>
        driveNth_records hroot steps (cue.child i) i 0 i fresh (cue.site_child i))
  | .group steps, cue, hroot => by
    rw [Step.tick]
    exact Track.tick_secures fun i fresh =>
      driveNth_records hroot steps (cue.child i) i 0 i fresh (cue.site_child i)
  | .parallel mode steps, cue, hroot => by
    have hstable : ∀ p, Stable id Nowhere (recordedLanes steps cue.site 0 p) :=
      fun p => recordedLanes_stable hroot steps p fun _ _ h => h
    exact .andThen (tickLanes_records steps cue 0 hroot) fun _ => .readThen fun p =>
      mode.conclude_secures hstable _ _ _
  | .wait _, cue, _ => Step.leaf_records rfl (Step.tick_follows_leaf hrun _ rfl cue)
  | .frames _, cue, _ => Step.leaf_records rfl (Step.tick_follows_leaf hrun _ rfl cue)
  | .tween _, cue, _ => Step.leaf_records rfl (Step.tick_follows_leaf hrun _ rfl cue)
  | .await _ _ _, cue, _ => Step.leaf_records rfl (Step.tick_follows_leaf hrun _ rfl cue)
  | .barrier _ _, cue, _ => Step.leaf_records rfl (Step.tick_follows_leaf hrun _ rfl cue)
  | .probe _ _, cue, _ => Step.leaf_records rfl (Step.tick_follows_leaf hrun _ rfl cue)
  | .publish _, cue, _ => Step.leaf_records rfl (Step.tick_follows_leaf hrun _ rfl cue)
  | .invoke _ _, cue, _ => Step.leaf_records rfl (Step.tick_follows_leaf hrun _ rfl cue)
  | .component _ _ _, cue, _ => Step.leaf_records rfl (Step.tick_follows_leaf hrun _ rfl cue)
  | .call _, cue, _ => Step.leaf_records rfl (Step.tick_follows_leaf hrun _ rfl cue)
  | .startSequence _, cue, _ => Step.leaf_records rfl (Step.tick_follows_leaf hrun _ rfl cue)
  | .stopSequence _, cue, _ => Step.leaf_records rfl (Step.tick_follows_leaf hrun _ rfl cue)
  | .custom _ _ _ _, cue, _ => Step.leaf_records rfl (Step.tick_follows_leaf hrun _ rfl cue)

theorem driveNth_records {σ : Site} {b : Bool} (hroot : σ.root = some id) :
    (l : List (Step Command)) → (cue : Cue) → (index n m : Nat) → (fresh : Bool) →
    cue.site = σ.branch b (n + m) → Play.Secures id (recordedChildren l σ b n)
      (driveNth run dt l cue index m fresh) (recordedChildren l σ b n)
  | [], _, _, _, _, _, _ => .pure _ fun _ _ hp => hp
  | s :: rest, cue, index, n, 0, fresh, hcue => by
    have hsite : σ.branch b n = cue.site := hcue.symm
    have hroot' : cue.site.root = some id := by rw [hcue, Site.root_branch, hroot]
    apply recordedChildren_first hroot <;> rw [hsite]
    · exact Cue.drive_follows (Step.enter_follows hrun s cue) (Step.tick_follows hrun s cue)
        (Step.exit_follows hrun s cue)
    · exact Cue.drive_secures (fun p => s.recordedWithin_stable hroot' p fun _ _ h => h)
        (Step.entered_records hrun hroot' (Step.enter_records hrun s cue hroot'))
        (Step.ticked_records hrun hroot' (Step.tick_records s cue hroot'))
        (Step.exited_records hrun s cue hroot')
  | s :: rest, cue, index, n, m + 1, fresh, hcue => by
    apply recordedChildren_second (m := n + (m + 1)) hroot (by omega)
    · rw [← hcue]
      exact driveNth_follows hrun rest cue index m fresh
    · exact driveNth_records hroot rest cue index (n + 1) m fresh (by rw [hcue]; congr 1; omega)

theorem tickLanes_records : (l : List (Step Command)) → (cue : Cue) → (n : Nat) →
    cue.site.root = some id →
    Play.Secures id (recordedLanes l cue.site n) (tickLanes run dt l cue n)
      (recordedLanes l cue.site n)
  | [], _, _, _ => .pure _ fun _ _ hp => hp
  | s :: rest, cue, n, hroot => by
    have hroot' : (cue.child n).site.root = some id := hroot
    have htick : Play.Secures id (s.RecordedWithin (cue.child n).site)
        ((cue.child n).tick dt (s.tick run dt (cue.child n)))
        (s.RecordedWithin (cue.child n).site) :=
      Step.ticked_records hrun hroot' (Step.tick_records s (cue.child n) hroot')
    have hlane := Lane.tick_secures htick (Step.exited_records hrun s (cue.child n) hroot')
    have hfollows : (Lane.tick (cue.child n) dt (s.tick run dt (cue.child n))
        (s.exit run (cue.child n))).Follows (Within (cue.site.branch true n)) :=
      Lane.tick_follows (Step.tick_follows hrun s (cue.child n))
        (Step.exit_follows hrun s (cue.child n))
    refine .andThen (recordedLanes_first hroot hfollows hlane) fun status => ?_
    refine .andThen (recordedLanes_second hroot (tickLanes_follows hrun rest cue (n + 1))
      (tickLanes_records rest cue (n + 1) hroot)) fun _ => ?_
    exact .pure _ fun _ _ hp => hp

end

end

end Sequencer
