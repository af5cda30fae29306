import Sequencer.Proofs.Channels.Motions

/-!
# Tweens of one entity side by side

A parallel step over tweens of one entity does, frame by frame, what the tweens do as motions side
by side, and a tween by itself what its motion does. So tweens of different channels run as each of
them does alone.
-/

set_option autoImplicit false

namespace Sequencer

namespace Play

variable {π : Type}

def drive (x : Float32 → Play π Status) :
    List Float32 → π × Stage → List (Except Halt Status) × π × Stage
  | [], y => ([], y)
  | dt :: rest, y =>
    match x dt y with
    | (.ok .running, z) =>
      let later := drive x rest z
      (.ok .running :: later.1, later.2)
    | (answer, z) => ([answer], z)

/-- A play that goes on until something is done is driven until it is done. -/
theorem drive_until {δ : Type} {x : Float32 → Play π Status} (known : δ → π × Stage → Prop)
    {next : δ → Float32 → δ} (done : δ → Prop) [DecidablePred done]
    (hnext : ∀ dt d y, ¬ done d → known d y →
      ∃ z, x dt y = (.ok (if done (next d dt) then .succeeded else .running), z) ∧
        known (next d dt) z)
    (hdone : ∀ dt d, done d → next d dt = d) (dts : List Float32) {d : δ} {y : π × Stage}
    (hd : ¬ done d) (hy : known d y) :
    let r := drive x dts y
    known (dts.foldl next d) r.2 ∧
    (∀ answer ∈ r.1, answer = .ok .running ∨ answer = .ok .succeeded) ∧
    (.ok .succeeded ∈ r.1 ↔ done (dts.foldl next d)) := by
  induction dts generalizing d y with
  | nil => exact ⟨hy, List.forall_mem_nil _, iff_of_false List.not_mem_nil hd⟩
  | cons dt rest ih =>
    obtain ⟨z, hz, hknown⟩ := hnext dt d y hd hy
    by_cases h : done (next d dt)
    · have hstay : rest.foldl next (next d dt) = next d dt :=
        List.foldl_fixed' (fun dt => hdone dt _ h) rest
      rw [if_pos h] at hz
      simp only [drive, hz, List.foldl_cons, hstay]
      exact ⟨hknown, by simp, by simpa using h⟩
    · rw [if_neg h] at hz
      simp only [drive, hz, List.foldl_cons]
      obtain ⟨hlast, hanswers, hsucceeded⟩ := ih h hknown
      exact ⟨hlast, by simpa using hanswers, by simpa using hsucceeded⟩

end Play

namespace Motion

structure Ready (id : EntityId) (m : Motion) : Prop where
  entity : m.progress.entity = id
  start : m.progress.start.isSome = true

def service (dt : Float32) (m : Motion) : Service :=
  if m.settled.isSome then .passed
  else
    match (m.step dt).settled with
    | none => .ticked (.ok .running)
    | some status => .exited status (.ok ())

def settles (dt : Float32) (m : Motion) : Option Status :=
  if m.settled.isSome then none else (m.step dt).settled

variable {id : EntityId} {m : Motion} {pose : Pose}

theorem service_result (dt : Float32) (m : Motion) :
    (m.service dt).result = .ok (m.settles dt) := by
  rw [service, settles]
  split
  · rfl
  cases (m.step dt).settled <;> rfl

theorem Ready.step (h : m.Ready id) (dt : Float32) : (m.step dt).Ready id := by
  rw [Motion.step]
  split
  · exact h
  · exact ⟨h.entity, h.start⟩

/-- A motion goes on, or comes to its end. -/
theorem step_settles (dt : Float32) (hm : m.settled = none) :
    (m.step dt).settled = none ∨ (m.step dt).settled = some .succeeded := by
  simp only [Motion.step, hm, Option.isSome_none, Bool.false_eq_true, if_false]
  split
  · exact .inr rfl
  · exact .inl rfl

theorem step_branch (dt : Float32) (hm : m.settled = none) :
    (m.step dt).branch = ⟨⟨.tween m.tween, (m.step dt).progress⟩, (m.step dt).settled⟩ := by
  simp only [Motion.step, hm, Option.isSome_none, Bool.false_eq_true, if_false]
  rfl

/-- A frame of the tween alone. -/
theorem tick_alone (h : m.Ready id) (hm : m.settled = none) (owner : String) (dt : Float32)
    {s : Stage} (hs : s.Writable id pose) :
    ∃ t, m.tween.tick owner dt (m.progress, s) =
        (.ok ((m.step dt).settled.getD .running), (m.step dt).progress, t) ∧
      t.Writable id (m.write dt pose) := by
  obtain ⟨rfl, hstart⟩ := h
  obtain ⟨start, hstart⟩ := Option.isSome_iff_exists.mp hstart
  obtain ⟨t, htick, ht⟩ := m.tween.tick_writable owner dt hstart hs
  refine ⟨t, ?_, ?_⟩
  · rw [htick]
    simp only [Motion.step, hm, Option.isSome_none, Bool.false_eq_true, if_false]
    split <;> rfl
  · simp only [write, hm, Option.isSome_none, Bool.false_eq_true, if_false, hstart]
    exact ht

theorem enter_branch (h : m.progress.entity = id) (run : Runner) (cue : Cue) {s : Stage}
    (hs : s.Writable id pose) :
    ∃ t, Branch.enter run cue m.branch s = (.entered (.ok ()), (m.begun pose).branch, t) ∧
      t.Writable id pose := by
  obtain rfl := h
  have henter : m.branch.step.enter run cue (m.branch.progress, s.note (.called cue.site .enter)) =
      _ := m.tween.enter_writable (hs.note _)
  refine ⟨(s.note (.called cue.site .enter)).note (.returned cue.site none), ?_,
    (hs.note _).note _⟩
  rw [Branch.enter, Cue.enter_apply, henter]
  rfl

/-- A frame of the tween as a child. -/
theorem tick_branch (h : m.Ready id) (run : Runner) (dt : Float32) (cue : Cue) {s : Stage}
    (hs : s.Writable id pose) :
    ∃ t, Branch.tick run dt cue m.branch s = (m.service dt, (m.step dt).branch, t) ∧
      t.Writable id (m.write dt pose) := by
  cases hm : m.settled with
  | some status =>
    have hsettled : m.settled.isSome = true := by rw [hm]; rfl
    refine ⟨s, ?_, ?_⟩
    · rw [Branch.tick, if_pos (show m.branch.settled.isSome = true from hsettled), service,
        if_pos hsettled, step_settled dt hsettled]
    · rw [write, if_pos hsettled]
      exact hs
  | none =>
    have hsettled : ¬ m.settled.isSome = true := by simp [hm]
    obtain ⟨t, htick, ht⟩ := tick_alone h hm cue.owner dt (hs.note (.called cue.site (.tick dt)))
    have hcall : cue.tick dt (m.branch.step.tick run dt cue) (m.branch.progress, s) =
        (.ok ((m.step dt).settled.getD .running), (m.step dt).progress,
          t.note (.returned cue.site (some ((m.step dt).settled.getD .running)))) := by
      have htick : m.branch.step.tick run dt cue
        (m.branch.progress, s.note (.called cue.site (.tick dt))) = _ := htick
      rw [Cue.tick_apply, htick]
      rfl
    rw [Branch.tick, if_neg (show ¬ m.branch.settled.isSome = true from hsettled), hcall, service,
      if_neg hsettled]
    rcases step_settles dt hm with hnext | hnext <;>
      rw [show (m.step dt).branch = _ from step_branch dt hm, hnext]
    · rw [show m.branch.settled = none from hm]
      exact ⟨t.note (.returned cue.site (some .running)), rfl, ht.note _⟩
    · exact ⟨((t.note (.returned cue.site (some .succeeded))).note (.called cue.site .exit)).note
        (.returned cue.site none), rfl, ((ht.note _).note _).note _⟩

theorem settles_succeeds (dt : Float32) (m : Motion) :
    m.settles dt = none ∨ m.settles dt = some .succeeded := by
  rw [settles]
  split
  · exact .inl rfl
  · exact step_settles dt (Option.not_isSome_iff_eq_none.mp ‹_›)

/-- A parallel step over tweens succeeds in the frame in which the last of them does. -/
theorem answer_motions (dt : Float32) (l : List Motion) :
    Quorum.all.answer (l.map (settles dt)) ((l.map (Motion.step dt)).map branch) =
      if ∀ m ∈ l.map (Motion.step dt), m.settled.isSome = true then .succeeded else .running := by
  have hfailure : ((l.map (settles dt)).reduceOption.any (·.isFailure)) = false := by
    rw [List.any_eq_false]
    intro status hstatus
    obtain ⟨m, -, hm⟩ := List.mem_map.mp (List.reduceOption_mem_iff.mp hstatus)
    rcases m.settles_succeeds dt with h | h <;> rw [h] at hm
    · cases hm
    · cases hm
      exact Bool.false_ne_true
  have hpending : ((l.map (Motion.step dt)).map branch).countP (·.settled.isNone) = 0 ↔
      ∀ m ∈ l.map (Motion.step dt), m.settled.isSome = true := by
    rw [List.countP_eq_zero, List.forall_mem_map]
    refine forall₂_congr fun m _ => ?_
    show ¬ m.settled.isNone = true ↔ _
    cases m.settled <;> simp
  simp only [Quorum.answer, Quorum.verdict, hfailure, hpending, Bool.false_eq_true, if_false]
  split <;> rfl

end Motion

abbrev Tween.steps (l : List Tween) : List (Step Command) := l.map .tween

def motions : (l : List Tween) → Lanes (Tween.steps l) → List Motion
  | [], _ => []
  | t :: rest, a => ⟨t, a.1.child, a.1.settled⟩ :: motions rest a.2

theorem branches_motions : (l : List Tween) → (a : Lanes (Tween.steps l)) →
    branches (Tween.steps l) a = (motions l a).map Motion.branch
  | [], _ => rfl
  | _ :: rest, a => congrArg (_ :: ·) (branches_motions rest a.2)

theorem motions_channels : (l : List Tween) → (a : Lanes (Tween.steps l)) →
    (motions l a).map Motion.channel = l.map (·.target.channel)
  | [], _ => rfl
  | _ :: rest, a => congrArg (_ :: ·) (motions_channels rest a.2)

theorem motions_eq {l : List Tween} {a : Lanes (Tween.steps l)} {ms : List Motion}
    (h : branches (Tween.steps l) a = ms.map Motion.branch) : motions l a = ms := by
  rw [branches_motions] at h
  refine List.map_injective_iff.mpr (fun m m' hm => ?_) h
  obtain ⟨t, p, flag⟩ := m
  obtain ⟨t', p', flag'⟩ := m'
  cases hm
  rfl

section

variable {id : EntityId} {pose : Pose} {s : Stage}

theorem enter_tweens (l : List Tween) {a : Lanes (Tween.steps l)}
    (h : ∀ m ∈ motions l a, m.progress.entity = id) (hs : s.Writable id pose) (run : Runner)
    (cue : Cue) :
    let r := (Step.parallel .all (Tween.steps l)).enter run cue (a, s)
    r.1 = .ok () ∧ motions l r.2.1 = (motions l a).map (Motion.begun pose) ∧
      r.2.2.Writable id pose := by
  intro r
  obtain ⟨vs, hround, hr⟩ := enterLanes_round run cue (Tween.steps l) 0 a s
  obtain ⟨u, hround', hu⟩ := round_fold (fun (_ : Unit) s => s.Writable id pose) (fun d _ => d)
    (fun m hm cue _ s hs => Motion.enter_branch (h m hm) run cue hs)
    (fun _ _ => ⟨none, rfl⟩) cue 0 (d := ()) hs
  rw [branches_motions, hround', Prod.mk.injEq, Prod.mk.injEq] at hround
  obtain ⟨rfl, hrow, rfl⟩ := hround
  have hresults : results ((motions l a).map fun _ => .entered (.ok ())) =
      .ok ((motions l a).map fun _ => none) := results_eq (by rw [List.map_map, List.map_map]; rfl)
  have hmotions : branches (Tween.steps l) r.2.1 =
      ((motions l a).map (Motion.begun pose)).map Motion.branch := by
    rw [List.map_map]
    exact hrow.symm
  rw [hresults] at hr
  exact ⟨hr, motions_eq hmotions, hu⟩

theorem frame_tweens (l : List Tween) {a : Lanes (Tween.steps l)}
    (h : ∀ m ∈ motions l a, m.Ready id) (hs : s.Writable id pose) (run : Runner) (dt : Float32)
    (cue : Cue) :
    let r := Quorum.all.frame (Tween.steps l) cue run dt (a, s)
    let x := Motion.advanceAll (motions l a, pose) dt
    r.1 = .ok (if ∀ m ∈ x.1, m.settled.isSome = true then .succeeded else .running) ∧
      motions l r.2.1 = x.1 ∧ r.2.2.Writable id x.2 := by
  intro r x
  obtain ⟨vs, t, hround, hanswer, hafter⟩ :=
    Quorum.frame_round .all (Tween.steps l) cue run dt a s
  obtain ⟨u, hround', hu⟩ := round_fold (fun pose s => s.Writable id pose) (Motion.write dt)
    (fun m hm cue pose s hs => Motion.tick_branch (h m hm) run dt cue hs)
    (fun m _ => ⟨_, m.service_result dt⟩) cue 0 hs
  rw [branches_motions, hround', Prod.mk.injEq, Prod.mk.injEq] at hround
  obtain ⟨rfl, hrow, rfl⟩ := hround
  have hresults : results ((motions l a).map (Motion.service dt)) =
      .ok ((motions l a).map (Motion.settles dt)) :=
    results_eq (by simp only [List.map_map, Function.comp_def, Motion.service_result])
  have hmotions : branches (Tween.steps l) r.2.1 =
      ((motions l a).map (Motion.step dt)).map Motion.branch := by
    rw [List.map_map]
    exact hrow.symm
  refine ⟨?_, motions_eq hmotions, ?_⟩
  · have hanswer : r.1 = (results _).map (Quorum.all.answer · (branches (Tween.steps l) r.2.1)) :=
      hanswer
    rw [hanswer, hresults, hmotions]
    exact congrArg Except.ok (Motion.answer_motions dt _)
  · exact Stage.noticed (P := (·.Writable id x.2)) hafter hu fun _ => hu.note _

end

structure AloneAt (t : Tween) (id : EntityId) (d : Motion × Pose) (y : TweenProgress × Stage) :
    Prop where
  tween : d.1.tween = t
  ready : d.1.Ready id
  progress : y.1 = d.1.progress
  stage : y.2.Writable id d.2

theorem AloneAt.tick {t : Tween} {id : EntityId} {d : Motion × Pose} {y : TweenProgress × Stage}
    (h : AloneAt t id d y) (hd : ¬ d.1.settled.isSome = true) (owner : String) (dt : Float32) :
    ∃ z, t.tick owner dt y = (.ok (if (Motion.advance d dt).1.settled.isSome = true
      then .succeeded else .running), z) ∧ AloneAt t id (Motion.advance d dt) z := by
  obtain ⟨m, pose⟩ := d
  obtain ⟨p, s⟩ := y
  obtain ⟨htween, hready, rfl, hs⟩ := h
  have hm : m.settled = none := Option.not_isSome_iff_eq_none.mp hd
  obtain ⟨u, htick, hu⟩ := m.tick_alone hready hm owner dt hs
  rw [show m.tween = t from htween] at htick
  refine ⟨((m.step dt).progress, u), htick.trans ?_, (m.step_tween dt).trans htween,
    hready.step dt, rfl, hu⟩
  rcases m.step_settles dt hm with h | h <;> simp [Motion.advance, h]

structure TogetherAt (l : List Tween) (id : EntityId) (d : List Motion × Pose)
    (y : Lanes (Tween.steps l) × Stage) : Prop where
  motions : motions l y.1 = d.1
  ready : ∀ m ∈ d.1, m.Ready id
  stage : y.2.Writable id d.2

theorem TogetherAt.tick {l : List Tween} {id : EntityId} {d : List Motion × Pose}
    {y : Lanes (Tween.steps l) × Stage} (h : TogetherAt l id d y) (run : Runner) (dt : Float32)
    (cue : Cue) :
    ∃ z, Quorum.all.frame (Tween.steps l) cue run dt y =
      (.ok (if ∀ m ∈ (Motion.advanceAll d dt).1, m.settled.isSome = true
        then .succeeded else .running), z) ∧ TogetherAt l id (Motion.advanceAll d dt) z := by
  obtain ⟨ms, pose⟩ := d
  obtain ⟨a, s⟩ := y
  obtain ⟨rfl, hready, hs⟩ := h
  obtain ⟨hanswer, hrow, hu⟩ := frame_tweens l hready hs run dt cue
  refine ⟨_, Prod.ext hanswer rfl, hrow, ?_, hu⟩
  exact List.forall_mem_map.mpr fun m hm => (hready m hm).step dt

section

variable {id : EntityId} {pose : Pose} {s : Stage}

/-- A tween that is entered and driven by itself does what its motion does. -/
theorem drive_alone {m : Motion} (h : m.progress.entity = id) (hs : s.Writable id pose)
    (run : Runner) (cue : Cue) (dts : List Float32) :
    let r := (Step.tween m.tween).enter run cue (m.progress, s)
    let x := Play.drive ((Step.tween m.tween).tick run · cue) dts r.2
    let e := dts.foldl Motion.advance (m.begun pose, pose)
    r.1 = .ok () ∧ x.2.2.Writable id e.2 ∧
    (∀ answer ∈ x.1, answer = .ok .running ∨ answer = .ok .succeeded) ∧
    (.ok .succeeded ∈ x.1 ↔ e.1.settled.isSome = true) := by
  obtain rfl := h
  intro r x e
  have hr : r = _ := m.tween.enter_writable hs
  have hx : x = Play.drive (m.tween.tick cue.owner) dts ((m.begun pose).progress, s) := by
    show Play.drive _ dts r.2 = _
    rw [hr]
    rfl
  have hbegun : AloneAt m.tween m.progress.entity (m.begun pose, pose)
    ((m.begun pose).progress, s) := ⟨rfl, ⟨rfl, rfl⟩, rfl, hs⟩
  obtain ⟨hlast, hanswers, hsucceeded⟩ := Play.drive_until (AloneAt m.tween m.progress.entity)
    (fun d => d.1.settled.isSome = true) (fun dt d y hd h => h.tick hd cue.owner dt)
    (fun dt d h => Motion.advance_settled dt h) dts (d := (m.begun pose, pose)) Bool.false_ne_true
    hbegun
  rw [hx, hr]
  exact ⟨rfl, hlast.stage, hanswers, hsucceeded⟩

/-- A parallel step over tweens that is entered and driven does what their motions do side by
side. -/
theorem drive_together (l : List Tween) (hl : l ≠ []) {a : Lanes (Tween.steps l)}
    (h : ∀ m ∈ motions l a, m.progress.entity = id) (hs : s.Writable id pose) (run : Runner)
    (cue : Cue) (dts : List Float32) :
    let r := (Step.parallel .all (Tween.steps l)).enter run cue (a, s)
    let x := Play.drive (Quorum.all.frame (Tween.steps l) cue run) dts r.2
    let e := dts.foldl Motion.advanceAll ((motions l a).map (Motion.begun pose), pose)
    r.1 = .ok () ∧ x.2.2.Writable id e.2 ∧
    (∀ answer ∈ x.1, answer = .ok .running ∨ answer = .ok .succeeded) ∧
    (.ok .succeeded ∈ x.1 ↔ ∀ m ∈ e.1, m.settled.isSome = true) := by
  intro r x e
  obtain ⟨hr, hmotions, hwritable⟩ := enter_tweens l h hs run cue
  have hready : ∀ m ∈ (motions l a).map (Motion.begun pose), m.Ready id :=
    List.forall_mem_map.mpr fun m hm => ⟨h m hm, rfl⟩
  have hunsettled : ¬ ∀ m ∈ (motions l a).map (Motion.begun pose), m.settled.isSome = true := by
    cases l with
    | nil => exact absurd rfl hl
    | cons t rest => exact fun hall => nomatch hall _ List.mem_cons_self
  have hbegun : TogetherAt l id ((motions l a).map (Motion.begun pose), pose) r.2 :=
    ⟨hmotions, hready, hwritable⟩
  obtain ⟨hlast, hanswers, hsucceeded⟩ := Play.drive_until (TogetherAt l id)
    (fun d => ∀ m ∈ d.1, m.settled.isSome = true) (fun dt d y _ h => h.tick run dt cue)
    (fun dt d h => Motion.advanceAll_settled dt h) dts hunsettled hbegun
  exact ⟨hr, hlast.stage, hanswers, hsucceeded⟩

end

/-- A frame of a tween changes no more of the scene than its channel. So tweens of different
channels of an entity that are played side by side come, frame by frame, to what each of them comes
to by itself, and are done when the last of them is. -/
theorem tweens_undisturbed :
    (∀ (t : Tween) (run : Runner) (dt : Float32) (cue : Cue) (p : TweenProgress) (s : Stage),
      let r := (Step.tween t).tick run dt cue (p, s)
      (∃ status, r.1 = .ok status) ∧
      s.host.scene.SameBut p.entity t.target.channel r.2.2.host.scene ∧
      (r.1 = .ok .failed → r.2.2.host.scene = s.host.scene)) ∧
    ∀ (l : List Tween) (a : Lanes (Tween.steps l)) (id : EntityId) (pose : Pose)
      (run run' : Runner) (cue cue' : Cue) (s s' : Stage) (dts : List Float32),
      l ≠ [] → (l.map (·.target.channel)).Nodup → (∀ m ∈ motions l a, m.progress.entity = id) →
      s.Writable id pose → s'.Writable id pose →
      let r := (Step.parallel .all (Tween.steps l)).enter run cue (a, s)
      let x := Play.drive (Quorum.all.frame (Tween.steps l) cue run) dts r.2
      let alone (m : Motion) := Play.drive ((Step.tween m.tween).tick run' · cue') dts
        ((Step.tween m.tween).enter run' cue' (m.progress, s')).2
      r.1 = .ok () ∧
      (∃ shown, x.2.2.Writable id shown ∧
        (∀ m ∈ motions l a, ∃ own, (alone m).2.2.Writable id own ∧
          shown.on m.channel = own.on m.channel) ∧
        ∀ c, c ∉ l.map (·.target.channel) → shown.on c = pose.on c) ∧
      (∀ answer ∈ x.1, answer = .ok .running ∨ answer = .ok .succeeded) ∧
      (.ok .succeeded ∈ x.1 ↔ ∀ m ∈ motions l a, .ok .succeeded ∈ (alone m).1) := by
  refine ⟨fun t run dt cue p s => t.tick_sameBut cue.owner dt p s, ?_⟩
  intro l a id pose run run' cue cue' s s' dts hl hchannels hid hs hs' r x alone
  obtain ⟨hr, hshown, hanswers, hsucceeded⟩ := drive_together l hl hid hs run cue dts
  have halone (m : Motion) (hm : m ∈ motions l a) := drive_alone (hid m hm) hs' run' cue' dts
  have hbegun : ((motions l a).map (Motion.begun pose)).map Motion.channel =
      l.map (·.target.channel) := by
    rw [← motions_channels l a, List.map_map]
    rfl
  refine ⟨hr, ⟨_, hshown, fun m hm => ?_, fun c hc => ?_⟩, hanswers, ?_⟩
  · obtain ⟨-, hown, -, -⟩ := halone m hm
    exact ⟨_, hown, Motion.advancesAll_own (m := m.begun pose) (hbegun ▸ hchannels)
      (List.mem_map_of_mem hm) rfl dts⟩
  · exact Motion.advancesAll_other (hbegun ▸ hc) dts
  · rw [show (.ok .succeeded ∈ x.1 ↔ _) from hsucceeded, Motion.advancesAll_motions (b := pose),
      List.forall_mem_map, List.forall_mem_map]
    refine forall₂_congr fun m hm => ?_
    obtain ⟨-, -, -, hown⟩ := halone m hm
    exact hown.symm

/-- A camera that moves for two frames and turns in the first of them. -/
theorem tweens_undisturbed_camera :
    let move : Tween := ⟨"camera", .position ⟨10, 0, 0⟩, 2, .linear⟩
    let look : Tween := ⟨"camera", .lookAt ⟨1, 0, 0⟩, 1, .linear⟩
    let id : EntityId := ⟨"camera", 1⟩
    let s : Stage := { host := { scene := (({} : Scene).spawn "camera" {}).2 } }
    let a : Lanes (Tween.steps [move, look]) := freshLanes (fun _ => id) _
    let cue : Cue := ⟨"a", .held "h"⟩
    let r := (Step.parallel .all (Tween.steps [move, look])).enter (perform 1) cue (a, s)
    let x := Play.drive (Quorum.all.frame (Tween.steps [move, look]) cue (perform 1)) [1, 1, 1] r.2
    let alone (m : Motion) := Play.drive ((Step.tween m.tween).tick (perform 1) · cue) [1, 1, 1]
      ((Step.tween m.tween).enter (perform 1) cue (m.progress, s)).2
    s.Writable id {} ∧ x.1 = [.ok .running, .ok .succeeded] ∧
    ∃ shown, x.2.2.Writable id shown ∧ ∀ m ∈ motions [move, look] a,
      ∃ own, (alone m).2.2.Writable id own ∧ shown.on m.channel = own.on m.channel := by
  intro move look id s a cue r x alone
  have hs : s.Writable id {} := ⟨rfl, nofun⟩
  have hid : ∀ m ∈ motions [move, look] a, m.progress.entity = id :=
    List.forall_mem_cons.mpr ⟨rfl, List.forall_mem_singleton.mpr rfl⟩
  obtain ⟨-, ⟨shown, hshown, hown, -⟩, -⟩ := tweens_undisturbed.2 [move, look] a id {} (perform 1)
    (perform 1) cue cue s s [1, 1, 1] (by decide) (by decide) hid hs hs
  exact ⟨hs, by decide +kernel, shown, hshown, hown⟩

end Sequencer
