import Sequencer.Proofs.SideBySide

/-!
# The two rules mirror each other

One child is the dual of another one if it fails where the other one succeeds, and the other way
round. Over dual children a parallel step of one rule answers with the dual of what a parallel step
of the other rule answers, and calls the same children.
-/

set_option autoImplicit false

namespace Sequencer

namespace Status

def dual : Status → Status
  | .running => .running
  | .succeeded => .failed
  | .failed => .succeeded

@[simp] theorem isRunning_dual (status : Status) : status.dual.isRunning = status.isRunning := by
  cases status <;> rfl

@[simp] theorem isSuccess_dual (status : Status) : status.dual.isSuccess = status.isFailure := by
  cases status <;> rfl

end Status

def Stage.Congruent (s t : Stage) : Prop := t = { s with journal := t.journal }

namespace Stage.Congruent

variable {s t : Stage}

theorem refl (s : Stage) : s.Congruent s := rfl

theorem note (h : s.Congruent t) (e e' : Entry) : (s.note e).Congruent (t.note e') := by
  rw [Congruent] at h ⊢
  rw [h]
  rfl

theorem noteLeft (h : s.Congruent t) (e : Entry) : (s.note e).Congruent t := h

theorem noteRight (h : s.Congruent t) (e : Entry) : s.Congruent (t.note e) := by
  rw [Congruent] at h ⊢
  rw [h]
  rfl

end Stage.Congruent

namespace Play

variable {π ρ α β : Type} {R : π → ρ → Prop} {f : α → α} {g : β → β}

/-- What two plays come to: the same halt, or results of which `f` makes one from the other. They
leave related progress and congruent stages either way. -/
inductive MirrorImage (R : π → ρ → Prop) (f : α → α) :
    Except Halt α × π × Stage → Except Halt α × ρ × Stage → Prop
  | halted (e : Halt) {p : π} {q : ρ} {s t : Stage} : R p q → s.Congruent t →
      MirrorImage R f (.error e, p, s) (.error e, q, t)
  | done (a : α) {p : π} {q : ρ} {s t : Stage} : R p q → s.Congruent t →
      MirrorImage R f (.ok a, p, s) (.ok (f a), q, t)

def Mirrors (R : π → ρ → Prop) (f : α → α) (x : Play π α) (y : Play ρ α) : Prop :=
  ∀ p q s t, R p q → s.Congruent t → MirrorImage R f (x (p, s)) (y (q, t))

namespace Mirrors

theorem pure (a : β) : Mirrors R g (pure a) (pure (g a)) := fun _ _ _ _ hR h => .done a hR h

theorem note (e e' : Entry) : Mirrors R id (Play.note e) (Play.note e') :=
  fun _ _ _ _ hR h => .done () hR (h.note e e')

theorem bind {x : Play π α} {y : Play ρ α} {k : α → Play π β} {j : α → Play ρ β}
    (hxy : Mirrors R f x y) (hkj : ∀ a, Mirrors R g (k a) (j (f a))) :
    Mirrors R g (x >>= k) (y >>= j) := by
  intro p q s t hR hs
  rw [bind_apply, bind_apply]
  have hfirst := hxy p q s t hR hs
  generalize x (p, s) = r, y (q, t) = r' at hfirst ⊢
  cases hfirst with
  | halted e hR' hs' => exact .halted e hR' hs'
  | done a hR' hs' => exact hkj a _ _ _ _ hR' hs'

end Mirrors

end Play

namespace Cue

variable {π ρ : Type} {R : π → ρ → Prop} (cue : Cue)

theorem enter_mirrors {x : Play π Unit} {y : Play ρ Unit} (h : Play.Mirrors R id x y) :
    Play.Mirrors R id (cue.enter x) (cue.enter y) :=
  .bind (.note _ _) fun _ => .bind h fun _ => .note _ _

theorem exit_mirrors {x : Play π Unit} {y : Play ρ Unit} (h : Play.Mirrors R id x y) :
    Play.Mirrors R id (cue.exit x) (cue.exit y) :=
  .bind (.note _ _) fun _ => .bind h fun _ => .note _ _

theorem tick_mirrors (dt : Float32) {x : Play π Status} {y : Play ρ Status}
    (h : Play.Mirrors R Status.dual x y) :
    Play.Mirrors R Status.dual (cue.tick dt x) (cue.tick dt y) :=
  .bind (.note _ _) fun _ => .bind h fun _ => .bind (.note _ _) fun _ => .pure _

end Cue

/-- With progress related by `R` one step does what the other one does whoever of the runners is
there, but it settles the other way. -/
structure Step.Duality (runners : Runner → Prop) (s s' : Step Command)
    (R : s.Progress → s'.Progress → Prop) : Prop where
  enter : ∀ run, runners run → ∀ cue, Play.Mirrors R id (s.enter run cue) (s'.enter run cue)
  tick : ∀ run, runners run → ∀ dt cue,
    Play.Mirrors R Status.dual (s.tick run dt cue) (s'.tick run dt cue)
  exit : ∀ run, runners run → ∀ cue, Play.Mirrors R id (s.exit run cue) (s'.exit run cue)

theorem scripted_dual {script : List Status} (h : script ≠ []) (n : Nat) :
    scripted .succeeded (script.map Status.dual) n = (scripted .succeeded script n).dual := by
  have hlt : min n (script.length - 1) < script.length := by
    have := List.length_pos_of_ne_nil h
    omega
  simp only [scripted, List.length_map, List.getElem?_map, List.getElem?_eq_getElem hlt,
    Option.map_some, Option.getD_some]

theorem Simple.scriptedTick_mirrors (id owner : String) {script : List Status} (h : script ≠ [])
    (dt : Float32) :
    Play.Mirrors (· = ·) Status.dual (scriptedTick (some id) owner script dt)
      (scriptedTick (some id) owner (script.map Status.dual) dt) := by
  rintro used _ s t rfl hs
  have hdual : scriptedTick (some id) owner (script.map Status.dual) dt (used, t) =
      (.ok (scripted .succeeded script used).dual, used + 1,
        t.note (.probeTicked id owner dt (scripted .succeeded script used).dual)) := by
    rw [← scripted_dual h]
    rfl
  rw [hdual]
  exact .done _ rfl (hs.note _ _)

/-- A probe that answers by the duals of a script. -/
theorem Step.probe_duality (runners : Runner → Prop) (id : String) {script : List Status}
    (h : script ≠ []) :
    Step.Duality runners (.probe id script) (.probe id (script.map Status.dual))
      (fun used used' : Nat => used = used') where
  enter _ _ _ := .note _ _
  tick _ _ dt cue := Simple.scriptedTick_mirrors id cue.owner h dt
  exit _ _ _ := .note _ _

def Part.Dual (runners : Runner → Prop) (p p' : Part) : Prop :=
  ∃ R, Step.Duality runners p.step p'.step R ∧ R p.progress p'.progress

structure Branch.Dual (runners : Runner → Prop) (b b' : Branch) : Prop where
  part : b.toPart.Dual runners b'.toPart
  settled : b'.settled = b.settled.map Status.dual

/-- Of branches and their duals the same ones have settled. -/
theorem Branch.dual_pending {runners : Runner → Prop} {row row' : List Branch}
    (h : List.Forall₂ (Branch.Dual runners) row row') :
    row'.map (·.settled.isNone) = row.map (·.settled.isNone) := by
  induction h with
  | nil => rfl
  | cons hb _ ih => rw [List.map_cons, List.map_cons, ih, hb.settled, Option.isNone_map]

namespace Service

def dual : Service → Service
  | .passed => .passed
  | .entered r => .entered r
  | .ticked r => .ticked (r.map Status.dual)
  | .exited status r => .exited status.dual r

@[simp] theorem calls_dual (v : Service) (dt : Float32) : v.dual.calls dt = v.calls dt := by
  cases v <;> rfl

theorem result_dual (v : Service) : v.dual.result = v.result.map (Option.map Status.dual) := by
  rcases v with _ | (e | _) | (e | _) | ⟨status, e | _⟩ <;> rfl

end Service

theorem results_dual (vs : List Service) :
    results (vs.map Service.dual) = (results vs).map (List.map (Option.map Status.dual)) := by
  induction vs with
  | nil => rfl
  | cons v rest ih =>
    rw [List.map_cons, results, results, v.result_dual, ih]
    rcases v.result with e | status
    · rfl
    · rcases results rest with e | later <;> rfl

structure Mirrored (related : Branch → Branch → Prop) (x x' : Service × Branch × Stage) : Prop where
  service : x'.1 = x.1.dual
  branch : related x.2.1 x'.2.1
  stage : x.2.2.Congruent x'.2.2

namespace Branch

variable {runners : Runner → Prop} {run : Runner} {b b' : Branch} {s s' : Stage}

theorem enter_mirrored (hrun : runners run) (h : b.toPart.Dual runners b'.toPart)
    (hs : s.Congruent s') (cue : Cue) :
    Mirrored (fun c c' => c.toPart.Dual runners c'.toPart)
      (b.enter run cue s) (b'.enter run cue s') := by
  obtain ⟨R, hdual, hR⟩ := h
  have hchild := cue.enter_mirrors (hdual.enter run hrun cue) _ _ s s' hR hs
  simp only [enter]
  generalize cue.enter (b.step.enter run cue) (b.progress, s) = r,
    cue.enter (b'.step.enter run cue) (b'.progress, s') = r' at hchild ⊢
  cases hchild with
  | halted e hR' hs' => exact ⟨rfl, ⟨R, hdual, hR'⟩, hs'⟩
  | done a hR' hs' => exact ⟨rfl, ⟨R, hdual, hR'⟩, hs'⟩

theorem tick_mirrored (hrun : runners run) (h : b.Dual runners b') (hs : s.Congruent s')
    (dt : Float32) (cue : Cue) :
    Mirrored (Branch.Dual runners) (b.tick run dt cue s) (b'.tick run dt cue s') := by
  have hflag : b'.settled.isSome = b.settled.isSome := by rw [h.settled, Option.isSome_map]
  by_cases hsettled : b.settled.isSome = true
  · rw [tick, tick, hflag, if_pos hsettled, if_pos hsettled]
    exact ⟨rfl, h, hs⟩
  rw [tick, tick, hflag, if_neg hsettled, if_neg hsettled]
  obtain ⟨⟨R, hdual, hR⟩, hsame⟩ := h
  have hchild := cue.tick_mirrors dt (hdual.tick run hrun dt cue) _ _ s s' hR hs
  generalize cue.tick dt (b.step.tick run dt cue) (b.progress, s) = r,
    cue.tick dt (b'.step.tick run dt cue) (b'.progress, s') = r' at hchild ⊢
  cases hchild with
  | halted e hR' hs' => exact ⟨rfl, ⟨⟨R, hdual, hR'⟩, hsame⟩, hs'⟩
  | @done status p q t t' hR' hs' =>
    simp only [Status.isRunning_dual]
    by_cases hrunning : status.isRunning = true
    · rw [if_pos hrunning, if_pos hrunning]
      exact ⟨rfl, ⟨⟨R, hdual, hR'⟩, hsame⟩, hs'⟩
    rw [if_neg hrunning, if_neg hrunning]
    have hexit := cue.exit_mirrors (hdual.exit run hrun cue) p q t t' hR' hs'
    generalize cue.exit (b.step.exit run cue) (p, t) = r,
      cue.exit (b'.step.exit run cue) (q, t') = r' at hexit ⊢
    cases hexit with
    | halted e hR'' hs'' => exact ⟨rfl, ⟨⟨R, hdual, hR''⟩, hsame⟩, hs''⟩
    | done a hR'' hs'' => exact ⟨rfl, ⟨⟨R, hdual, hR''⟩, rfl⟩, hs''⟩

end Branch

/-- A round over branches and the same round over their duals. -/
theorem round_mirrored {related : Branch → Branch → Prop}
    (call : Cue → Branch → Stage → Service × Branch × Stage)
    (hcall : ∀ cue b b' s s', related b b' → s.Congruent s' →
      Mirrored related (call cue b s) (call cue b' s'))
    (cue : Cue) (index : Nat) {row row' : List Branch} (hrow : List.Forall₂ related row row')
    {s s' : Stage} (hs : s.Congruent s') :
    let x := round call cue index row s
    let x' := round call cue index row' s'
    x'.1 = x.1.map Service.dual ∧ List.Forall₂ related x.2.1 x'.2.1 ∧ x.2.2.Congruent x'.2.2 := by
  induction hrow generalizing index s s' with
  | nil => exact ⟨rfl, .nil, hs⟩
  | @cons b b' rest rest' hb hrest ih =>
    have hmirrored := hcall (cue.child index) b b' s s' hb hs
    rcases hx : call (cue.child index) b s with ⟨v, c, t⟩
    rcases hx' : call (cue.child index) b' s' with ⟨v', c', t'⟩
    rw [hx, hx'] at hmirrored
    obtain ⟨hv, hc, ht⟩ := hmirrored
    obtain rfl : v' = v.dual := hv
    rcases hresult : v.result with e | status
    · have hdual : v.dual.result = .error e := by rw [v.result_dual, hresult]; rfl
      rw [round_halts hx hresult, round_halts hx' hdual]
      exact ⟨rfl, .cons hc hrest, ht⟩
    · have hdual : v.dual.result = .ok (status.map Status.dual) := by
        rw [v.result_dual, hresult]; rfl
      rw [round_goes_on _ hx hresult, round_goes_on _ hx' hdual]
      obtain ⟨hvs, hlater, hu⟩ := ih (index + 1) ht
      exact ⟨congrArg (v.dual :: ·) hvs, .cons hc hlater, hu⟩

theorem Quorum.verdict_dual (settled : List Status) (pending : Nat) :
    Quorum.any.verdict (settled.map Status.dual) pending =
      (Quorum.all.verdict settled pending).map Status.dual := by
  simp only [verdict, List.any_map, Function.comp_def, Status.isSuccess_dual]
  split
  · rfl
  · split <;> rfl

/-- The answers are dual also if a child decides in the frame in which the last one settles. -/
theorem Quorum.answer_dual {runners : Runner → Prop} {row row' : List Branch}
    (h : List.Forall₂ (Branch.Dual runners) row row') (statuses : List (Option Status)) :
    Quorum.any.answer (statuses.map (Option.map Status.dual)) row' =
      (Quorum.all.answer statuses row).dual := by
  have hpending := congrArg (List.countP id) (Branch.dual_pending h)
  rw [List.countP_map, List.countP_map, Function.id_comp] at hpending
  rw [answer, answer, hpending, List.reduceOption_map, verdict_dual]
  cases Quorum.all.verdict statuses.reduceOption (row.countP (·.settled.isNone)) <;> rfl

structure Occasion.Congruent (runners : Runner → Prop) (o o' : Occasion) : Prop where
  run : o'.run = o.run
  dt : o'.dt = o.dt
  world : o.world.Congruent o'.world
  able : runners o.run

structure Frame.Dual (f f' : Frame) : Prop where
  answer : f'.answer = f.answer.map Status.dual
  after : f.after.Congruent f'.after

theorem Rounds.mirrored {runners : Runner → Prop} {cue : Cue} {fs fs' : List Frame}
    {rounds rounds' : List (List Service)} {row row' last last' : List Branch}
    (h : Rounds .all cue fs rounds row last) (h' : Rounds .any cue fs' rounds' row' last')
    (hfs : List.Forall₂ (fun f f' => f.toOccasion.Congruent runners f'.toOccasion) fs fs')
    (hrow : List.Forall₂ (Branch.Dual runners) row row') :
    rounds' = rounds.map (·.map Service.dual) ∧ List.Forall₂ Frame.Dual fs fs' ∧
      List.Forall₂ (Branch.Dual runners) last last' := by
  induction h generalizing fs' rounds' row' with
  | nil row =>
    cases hfs
    cases h'
    exact ⟨rfl, .nil, hrow⟩
  | @cons f fs vs later row next last t hround hanswer hafter _ ih =>
    obtain _ | ⟨hf, hrest⟩ := hfs
    cases h' with
    | @cons f' fs' vs' later' _ next' _ t' hround' hanswer' hafter' hlater' =>
      have hmirrored := round_mirrored (Branch.tick f.run f.dt)
        (fun c b b' s s' hb hs => b.tick_mirrored hf.able hb hs f.dt c) cue 0 hrow hf.world
      rw [hf.run, hf.dt] at hround'
      rw [hround, hround'] at hmirrored
      obtain ⟨hvs, hnext, ht⟩ := hmirrored
      obtain rfl : vs' = vs.map Service.dual := hvs
      obtain ⟨hlater, hframes, hlast⟩ := ih hlater' hrest hnext
      refine ⟨by rw [hlater, List.map_cons], .cons ⟨?_, ?_⟩ hframes, hlast⟩
      · rw [hanswer', hanswer, results_dual]
        rcases results vs with e | statuses
        · rfl
        · exact congrArg Except.ok (Quorum.answer_dual hnext statuses)
      · have hleft : f.after.Congruent t' :=
          Stage.noticed (P := (·.Congruent t')) hafter ht fun _ => ht.noteLeft _
        exact Stage.noticed hafter' hleft fun _ => hleft.noteRight _

namespace Quorum

structure MirroredFrames (cue : Cue) (fs fs' : List Frame) (row row' last last' : List Branch) :
    Prop where
  frames : List.Forall₂ Frame.Dual fs fs'
  /-- In each frame corresponding children are called alike. -/
  rounds : ∃ rounds rounds', Rounds .all cue fs rounds row last ∧
    Rounds .any cue fs' rounds' row' last' ∧ rounds' = rounds.map (·.map Service.dual) ∧
    ∀ dt, rounds'.map (·.map (Service.calls dt)) = rounds.map (·.map (Service.calls dt))
  pending : last'.map (·.settled.isNone) = last.map (·.settled.isNone)

theorem frames_mirrored {runners : Runner → Prop} {l l' : List (Step Command)} {a : Lanes l}
    {a' : Lanes l'} (h : List.Forall₂ (Branch.Dual runners) (branches l a) (branches l' a'))
    (cue : Cue) {os os' : List Occasion} (hos : List.Forall₂ (Occasion.Congruent runners) os os') :
    let x := Play.frames (Quorum.all.frame l cue) os a
    let x' := Play.frames (Quorum.any.frame l' cue) os' a'
    MirroredFrames cue x.1 x'.1 (branches l a) (branches l' a') (branches l x.2)
      (branches l' x'.2) := by
  intro x x'
  obtain ⟨rounds, hrounds⟩ := Rounds.frames .all l cue os a
  obtain ⟨rounds', hrounds'⟩ := Rounds.frames .any l' cue os' a'
  have hfs : List.Forall₂ (fun f f' => f.toOccasion.Congruent runners f'.toOccasion) x.1 x'.1 := by
    rw [← Play.occasions_frames _ os, ← Play.occasions_frames _ os'] at hos
    exact List.forall₂_map_left_iff.mp (List.forall₂_map_right_iff.mp hos)
  obtain ⟨hdual, hframes, hlast⟩ := hrounds.mirrored hrounds' hfs h
  refine ⟨hframes, ⟨rounds, rounds', hrounds, hrounds', hdual, fun dt => ?_⟩,
    Branch.dual_pending hlast⟩
  simp only [hdual, List.map_map, Function.comp_def, Service.calls_dual]

end Quorum

theorem Branch.dual_unsettled {runners : Runner → Prop} {row row' : List Branch}
    (h : List.Forall₂ (fun b b' => b.toPart.Dual runners b'.toPart) row row')
    (hrow : ∀ b ∈ row, b.settled = none) (hrow' : ∀ b ∈ row', b.settled = none) :
    List.Forall₂ (Branch.Dual runners) row row' := by
  induction h with
  | nil => exact .nil
  | cons hb _ ih =>
    obtain ⟨hfirst, hlater⟩ := List.forall_mem_cons.mp hrow
    obtain ⟨hfirst', hlater'⟩ := List.forall_mem_cons.mp hrow'
    exact .cons ⟨hb, by rw [hfirst, hfirst']; rfl⟩ (ih hlater hlater')

/-- A parallel step that settles with any of the duals of some children is the dual of one that
settles with all of the children, in every frame of every activation. -/
theorem any_mirrors_all (runners : Runner → Prop) (l l' : List (Step Command)) (a : Lanes l)
    (a' : Lanes l') (cue : Cue) (run : Runner) (s s' : Stage) (os os' : List Occasion)
    (hchildren : List.Forall₂ (fun b b' => b.toPart.Dual runners b'.toPart) (branches l a)
      (branches l' a'))
    (hrun : runners run) (hs : s.Congruent s')
    (hos : List.Forall₂ (Occasion.Congruent runners) os os') :
    let r := (Step.parallel .all l).enter run cue (a, s)
    let r' := (Step.parallel .any l').enter run cue (a', s')
    let x := Play.frames (Quorum.all.frame l cue) os r.2.1
    let x' := Play.frames (Quorum.any.frame l' cue) os' r'.2.1
    (∃ vs, round (Branch.enter run) cue 0 (branches l a) s = (vs, branches l r.2.1, r.2.2) ∧
      round (Branch.enter run) cue 0 (branches l' a') s' =
        (vs.map Service.dual, branches l' r'.2.1, r'.2.2)) ∧
    r'.1 = r.1 ∧ r.2.2.Congruent r'.2.2 ∧
    (∀ w, (Step.parallel .all l).exit run cue (x.2, w) = (.ok (), x.2, w) ∧
      (Step.parallel .any l').exit run cue (x'.2, w) = (.ok (), x'.2, w)) ∧
    (r.1 = .ok () → Quorum.MirroredFrames cue x.1 x'.1 (branches l r.2.1) (branches l' r'.2.1)
      (branches l x.2) (branches l' x'.2)) := by
  intro r r' x x'
  obtain ⟨vs, hround, hr⟩ := enterLanes_round run cue l 0 a s
  obtain ⟨vs', hround', hr'⟩ := enterLanes_round run cue l' 0 a' s'
  have hmirrored := round_mirrored (Branch.enter run)
    (fun c b b' s s' hb hs => b.enter_mirrored hrun hb hs c) cue 0 hchildren hs
  rw [hround, hround'] at hmirrored
  obtain ⟨hvs, hrow, hafter⟩ := hmirrored
  obtain rfl : vs' = vs.map Service.dual := hvs
  have hsame : r'.1 = r.1 := by
    refine hr'.trans (Eq.trans ?_ hr.symm)
    rw [results_dual]
    cases results vs <;> rfl
  refine ⟨⟨vs, hround, hround'⟩, hsame, hafter, fun _ => ⟨rfl, rfl⟩, fun hok => ?_⟩
  exact Quorum.frames_mirrored (Branch.dual_unsettled hrow
    (enterLanes_unsettled run cue l 0 a s hok)
    (enterLanes_unsettled run cue l' 0 a' s' (hsame.trans hok))) cue hos

/-- In the second frame a child fails and the next one succeeds, while the third one goes on. -/
theorem any_mirrors_all_mixed :
    let l : List (Step Command) := [.probe "p" [.running, .failed],
      .probe "q" [.running, .succeeded], .probe "r" [.running]]
    let l' : List (Step Command) := [.probe "p" [.running, .succeeded],
      .probe "q" [.running, .failed], .probe "r" [.running]]
    let a : Lanes l := (⟨some .failed, (0 : Nat)⟩, ⟨none, (0 : Nat)⟩, ⟨none, (0 : Nat)⟩, ())
    let a' : Lanes l' := (⟨none, (0 : Nat)⟩, ⟨none, (0 : Nat)⟩, ⟨none, (0 : Nat)⟩, ())
    let cue : Cue := ⟨"a", .held "h"⟩
    let o : Occasion := ⟨perform 1, 1, {}⟩
    let r := (Step.parallel .all l).enter (perform 1) cue (a, {})
    let r' := (Step.parallel .any l').enter (perform 1) cue (a', {})
    let x := Play.frames (Quorum.all.frame l cue) [o, o] r.2.1
    let x' := Play.frames (Quorum.any.frame l' cue) [o, o] r'.2.1
    x.1.map (·.answer) = [.ok .running, .ok .failed] ∧
    Quorum.MirroredFrames cue x.1 x'.1 (branches l r.2.1) (branches l' r'.2.1) (branches l x.2)
      (branches l' x'.2) := by
  intro l l' a a' cue o r r' x x'
  refine ⟨by decide +kernel, ?_⟩
  have hchildren : List.Forall₂ (fun b b' => b.toPart.Dual (fun _ => True) b'.toPart)
      (branches l a) (branches l' a') :=
    .cons ⟨_, Step.probe_duality _ "p" (by decide), rfl⟩ <|
      .cons ⟨_, Step.probe_duality _ "q" (by decide), rfl⟩ <|
        .cons ⟨_, Step.probe_duality _ "r" (by decide), rfl⟩ .nil
  have ho : o.Congruent (fun _ => True) o := ⟨rfl, rfl, .refl _, trivial⟩
  obtain ⟨-, -, -, -, hframes⟩ := any_mirrors_all (fun _ => True) l l' a a' cue (perform 1) {} {}
    [o, o] [o, o] hchildren trivial (.refl _) (.cons ho (.cons ho .nil))
  exact hframes rfl

end Sequencer
