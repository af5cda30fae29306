import Sequencer.Proofs.Passes

/-!
# A list that is bounded in time

As long as its time is not up a bounded list does what the list does by itself, frame by frame. In
the frame in which time runs over the bound nothing is driven: the child that is in flight is
exited, if there is one, and the policy has the answer.
-/

set_option autoImplicit false

namespace Sequencer

def timeTaken (os : List Occasion) : Float32 := os.foldl (fun t o => t + o.dt) 0

theorem timeTaken_concat (os : List Occasion) (o : Occasion) :
    timeTaken (os ++ [o]) = timeTaken os + o.dt := by
  rw [timeTaken, List.foldl_append]
  rfl

def InTime (seconds : Float32) (os : List Occasion) : Prop :=
  ∀ as, as ≠ [] → as <+: os → ¬ timeTaken as > seconds

theorem InTime.nil (seconds : Float32) : InTime seconds [] :=
  fun _ hne has => absurd (List.prefix_nil.mp has) hne

theorem inTime_concat {seconds : Float32} {os : List Occasion} {o : Occasion} :
    InTime seconds (os ++ [o]) ↔ InTime seconds os ∧ ¬ timeTaken (os ++ [o]) > seconds := by
  constructor
  · intro h
    exact ⟨fun as hne has => h as hne (has.trans (List.prefix_append _ _)),
      h _ (by simp) (List.prefix_refl _)⟩
  · rintro ⟨hbefore, hlast⟩ as hne has
    rcases List.prefix_concat_iff.mp has with rfl | has
    · exact hlast
    · exact hbefore as hne has

def anyStatus (_ : Status) : Prop := True

structure Track.Turned {π : Type} (length : Nat) (bs : List Beat) (t : Track π) : Prop where
  pass : Pass anyStatus 0 bs t.cursor t.entered
  inside : t.entered = true → t.cursor < length

namespace Track

variable {cue : Cue} {steps : List (Step Command)} {t : Track (Children steps)} {bs : List Beat}

theorem frame_beat {run : Runner} {dt : Float32} (h : t.cursor < steps.length) {s u : Stage}
    {r : Except Halt Status} {c : Children steps}
    (hdrive : driveNth run dt steps (cue.child t.cursor) t.cursor t.cursor (!t.entered)
      (t.children, s) = (r, c, u)) :
    Track.frame run dt cue steps (t, s) =
      (r.map (t.answer steps.length .advance), t.driven c r, u) := by
  let drive (i : Nat) (fresh : Bool) := driveNth run dt steps (cue.child i) i i fresh
  have hdrive : drive t.cursor (!t.entered) (t.children, s) = (r, c, u) := hdrive
  exact Track.tick_beat h hdrive

theorem answer_ne_failed {π : Type} (t : Track π) (length : Nat) (status : Status) :
    t.answer length .advance status ≠ .failed := by
  simp only [answer, reduceCtorEq, decide_false, Bool.and_false, Bool.false_eq_true, if_false]
  split
  · simp
  · split <;> simp

theorem frame_ne_failed (run : Runner) (dt : Float32) (cue : Cue) (t : Track (Children steps))
    (s : Stage) : (Track.frame run dt cue steps (t, s)).1 ≠ .ok .failed := by
  by_cases h : t.cursor < steps.length
  · rcases hdrive : driveNth run dt steps (cue.child t.cursor) t.cursor t.cursor (!t.entered)
      (t.children, s) with ⟨r, c, u⟩
    rw [frame_beat h hdrive]
    cases r with
    | error e => nofun
    | ok status => simpa [Except.map] using t.answer_ne_failed steps.length status
  · rw [Track.frame, Track.tick_past (by omega)]
    nofun

theorem frames_ne_failed (cue : Cue) (os : List Occasion) (t : Track (Children steps)) :
    ∀ f ∈ (Play.frames (Track.frame · · cue steps) os t).1, f.answer ≠ .ok .failed := by
  induction os generalizing t with
  | nil => exact List.forall_mem_nil _
  | cons o rest ih =>
    exact List.forall_mem_cons.mpr ⟨frame_ne_failed o.run o.dt cue t o.world, ih _⟩

theorem Turned.rewound {π : Type} (t : Track π) (length : Nat) : t.rewound.Turned length [] :=
  ⟨.between 0, nofun⟩

/-- A frame that does not settle has one beat. -/
theorem Turned.frame (cue : Cue) (h : t.Turned steps.length bs) (o : Occasion) :
    let x := Track.frame o.run o.dt cue steps (t, o.world)
    settlement x.1 = none →
    ∃ b, Beats cue steps (fun _ s => s) [⟨o, x.1, x.2.2⟩] [b] t.children x.2.1.children ∧
      x.2.1.Turned steps.length (bs ++ [b]) := by
  intro x hx
  have hcursor : t.cursor < steps.length := by
    by_contra hpast
    have hx' : x = _ := Track.tick_past (Nat.not_lt.mp hpast) o.world
    rw [hx'] at hx
    cases hx
  rcases hdrive : driveNth o.run o.dt steps (cue.child t.cursor) t.cursor t.cursor (!t.entered)
    (t.children, o.world) with ⟨r, c, u⟩
  have hx' : x = _ := frame_beat hcursor hdrive
  have hchildren : (t.driven c r).children = c := by
    cases r with
    | error e => rfl
    | ok status => cases status <;> rfl
  refine ⟨⟨t.cursor, !t.entered, r⟩, .cons hcursor hdrive (congrArg (·.2.2) hx') ?_, ?_⟩
  · rw [hx']
    show Beats _ _ _ [] [] c (t.driven c r).children
    rw [hchildren]
    exact .nil c
  · rw [hx']
    rcases r with e | status
    · exact ⟨h.pass.unsettled rfl, fun _ => hcursor⟩
    · cases status with
      | running => exact ⟨h.pass.unsettled rfl, fun _ => hcursor⟩
      | succeeded => exact ⟨h.pass.settled rfl trivial, nofun⟩
      | failed => exact ⟨h.pass.settled rfl trivial, nofun⟩

theorem Turned.frames (cue : Cue) : (os : List Occasion) → {t : Track (Children steps)} →
    {bs : List Beat} → t.Turned steps.length bs →
    let a := Play.frames (Track.frame · · cue steps) os t
    (∀ f ∈ a.1, f.Unsettled) →
    ∃ ds, Beats cue steps (fun _ s => s) a.1 ds t.children a.2.children ∧
      a.2.Turned steps.length (bs ++ ds)
  | [], t, bs, h, _ => ⟨[], .nil _, bs.append_nil.symm ▸ h⟩
  | o :: rest, t, bs, h, hunsettled => by
    obtain ⟨hfirst, hlater⟩ := List.forall_mem_cons.mp hunsettled
    obtain ⟨b, hbeat, hturned⟩ := h.frame cue o hfirst
    obtain ⟨ds, hbeats, hend⟩ := Turned.frames cue rest hturned hlater
    refine ⟨b :: ds, hbeat.append hbeats, ?_⟩
    rw [List.append_cons]
    exact hend

theorem cancel_between {π : Type} {t : Track π} (h : t.entered = false) (length : Nat)
    (exit : Nat → Play π Unit) (s : Stage) :
    Track.cancel length exit (t, s) = (.ok (), ⟨length, false, t.children⟩, s) := by
  simp only [Track.cancel, Play.bind_apply, Play.read, h, Bool.false_and]
  rfl

/-- The child in flight is exited. If its exit halts the list stays where it was. -/
theorem cancel_within {π : Type} {t : Track π} {length : Nat} (h : t.entered = true)
    (hcursor : t.cursor < length) (exit : Nat → Play π Unit) (s : Stage) :
    let r := exit t.cursor (t.children, s)
    ∃ t', Track.cancel length exit (t, s) = (r.1, t', r.2.2) ∧ t'.children = r.2.1 := by
  simp only [Track.cancel, Play.bind_apply, Play.read, h, hcursor, decide_true, Bool.true_and,
    if_true, onChildren, Play.part]
  rcases exit t.cursor (t.children, s) with ⟨e | _, c, u⟩
  · exact ⟨⟨t.cursor, true, c⟩, rfl, rfl⟩
  · exact ⟨⟨length, false, c⟩, rfl, rfl⟩

end Track

namespace BoundedProgress

section

variable {π : Type} {owner : String} {seconds dt : Float32} {policy : Expiry}
  {body : Play (Track π) Status} {cancel : Play (Track π) Unit} {p : BoundedProgress π}

theorem tick_inTime (h : ¬ p.elapsed + dt > seconds) (s : Stage) :
    BoundedProgress.tick owner seconds policy dt body cancel (p, s) =
      let r := body (p.body, s)
      (r.1, { elapsed := p.elapsed + dt, body := r.2.1 }, r.2.2) := by
  simp only [BoundedProgress.tick, Play.bind_apply, Play.change, Play.read, h, if_false]
  rfl

theorem tick_over (h : p.elapsed + dt > seconds) (s : Stage) :
    BoundedProgress.tick owner seconds policy dt body cancel (p, s) =
      let r := cancel (p.body, s.note (.notice (.timeoutHit owner seconds p.body.cursor)))
      (r.1.map fun _ => policy.outcome, { elapsed := p.elapsed + dt, body := r.2.1 }, r.2.2) := by
  simp only [BoundedProgress.tick, Play.bind_apply, Play.change, Play.read, h, if_true]
  have hsay : Play.say (.timeoutHit owner seconds p.body.cursor)
      (({ elapsed := p.elapsed + dt, body := p.body } : BoundedProgress π), s) =
      (.ok (), { elapsed := p.elapsed + dt, body := p.body },
        s.note (.notice (.timeoutHit owner seconds p.body.cursor))) := rfl
  simp only [hsay, onBody, Play.part]
  rcases cancel (p.body, s.note (.notice (.timeoutHit owner seconds p.body.cursor))) with
    ⟨e | _, t, u⟩ <;> rfl

end

def frame (seconds : Float32) (policy : Expiry) (steps : List (Step Command)) (cue : Cue)
    (run : Runner) (dt : Float32) : Play (BoundedProgress (Children steps)) Status :=
  (Step.bounded seconds policy steps).tick run dt cue

variable {seconds : Float32} {policy : Expiry} {steps : List (Step Command)}

theorem exitNth_called {run : Runner} (hrun : run.Follows) (cue : Cue) :
    {l : List (Step Command)} → {n : Nat} → n < l.length → (x : Children l × Stage) →
    let y := exitNth run l cue n x
    ∃ j, cue.site.Called .exit (y.1.map fun _ => none) j ∧ y.2.2.journal = j ++ x.2.journal
  | s :: _, 0, _, (c, u) =>
    have hexit : (s.exit run cue).Follows (Site.Below cue.site) := Step.exit_follows hrun s cue
    cue.exit_called hexit.grows (c.1, u)
  | _ :: _, _ + 1, h, (c, u) => exitNth_called hrun cue (Nat.lt_of_succ_lt_succ h) (c.2, u)

/-- A frame in which the time of a list is up, given where the list stands. The child that is in
flight is exited, and no child is called if none is. -/
structure Expires (seconds : Float32) (policy : Expiry) (steps : List (Step Command)) (cue : Cue)
    (t : Track (Children steps)) (o : Occasion)
    (x : Except Halt Status × BoundedProgress (Children steps) × Stage) : Prop where
  between : t.entered = false → x.1 = .ok policy.outcome ∧ x.2.1.body.children = t.children ∧
    x.2.2 = o.world.note (.notice (.timeoutHit cue.owner seconds t.cursor))
  within : t.entered = true →
    let r := exitNth o.run steps (cue.child t.cursor) t.cursor
      (t.children, o.world.note (.notice (.timeoutHit cue.owner seconds t.cursor)))
    x.1 = r.1.map (fun _ => policy.outcome) ∧ x.2.1.body.children = r.2.1 ∧ x.2.2 = r.2.2
  /-- The journal gains the exit of that child and nothing else. -/
  told : t.entered = true → o.run.Follows → ∃ (r : Except Halt Unit) (l : List Entry),
    (Site.child cue.site t.cursor).Called .exit (r.map fun _ => none) l ∧
    x.1 = r.map (fun _ => policy.outcome) ∧
    x.2.2.journal = l ++ .notice (.timeoutHit cue.owner seconds t.cursor) :: o.world.journal

section

variable (policy) (cue : Cue) {run : Runner} {dt : Float32} {p : BoundedProgress (Children steps)}

theorem frame_inTime (h : ¬ p.elapsed + dt > seconds) (s : Stage) :
    BoundedProgress.frame seconds policy steps cue run dt (p, s) =
      let r := Track.frame run dt cue steps (p.body, s)
      (r.1, { elapsed := p.elapsed + dt, body := r.2.1 }, r.2.2) :=
  tick_inTime h s

theorem frame_over (h : p.elapsed + dt > seconds) (s : Stage) :
    BoundedProgress.frame seconds policy steps cue run dt (p, s) =
      let r := Track.cancel steps.length (fun i => exitNth run steps (cue.child i) i)
        (p.body, s.note (.notice (.timeoutHit cue.owner seconds p.body.cursor)))
      (r.1.map fun _ => policy.outcome, { elapsed := p.elapsed + dt, body := r.2.1 }, r.2.2) :=
  tick_over h s

end

theorem frame_expires (policy : Expiry) (cue : Cue) {p : BoundedProgress (Children steps)}
    (hinside : p.body.entered = true → p.body.cursor < steps.length) {o : Occasion}
    (h : p.elapsed + o.dt > seconds) :
    Expires seconds policy steps cue p.body o
      (BoundedProgress.frame seconds policy steps cue o.run o.dt (p, o.world)) := by
  let u := o.world.note (.notice (.timeoutHit cue.owner seconds p.body.cursor))
  have hwithin (hentered : p.body.entered = true) := Track.cancel_within hentered
    (hinside hentered) (fun i => exitNth o.run steps (cue.child i) i) u
  rw [frame_over policy cue h]
  constructor
  · intro hentered
    rw [Track.cancel_between hentered]
    exact ⟨rfl, rfl, rfl⟩
  · intro hentered r
    obtain ⟨t, hcancel, hchildren⟩ := hwithin hentered
    rw [hcancel]
    exact ⟨rfl, hchildren, rfl⟩
  · intro hentered hrun
    obtain ⟨t, hcancel, -⟩ := hwithin hentered
    obtain ⟨l, hcalled, hl⟩ := exitNth_called hrun (cue.child p.body.cursor) (hinside hentered)
      (p.body.children, u)
    rw [hcancel]
    exact ⟨_, l, hcalled, rfl, hl⟩

theorem frames_inTime (policy : Expiry) (cue : Cue) (p : BoundedProgress (Children steps))
    (hp : p.elapsed = 0) {os : List Occasion} (h : InTime seconds os) :
    let a := Play.frames (BoundedProgress.frame seconds policy steps cue) os p
    let alone := Play.frames (Track.frame · · cue steps) os p.body
    a.1 = alone.1 ∧ a.2.body = alone.2 ∧ a.2.elapsed = timeTaken os := by
  induction os using List.reverseRecOn with
  | nil => exact ⟨rfl, rfl, hp⟩
  | append_singleton os o ih =>
    obtain ⟨hbefore, hlast⟩ := inTime_concat.mp h
    obtain ⟨hframes, hbody, helapsed⟩ := ih hbefore
    rw [timeTaken_concat, ← helapsed] at hlast
    simp only [Play.frames_append, frame_inTime policy cue hlast, hframes, hbody, helapsed,
      timeTaken_concat, and_self]

end BoundedProgress

/-- What the frames of a bounded list come to while its time is not up, and the frame after them,
given the frames of the list by itself. -/
structure BoundedProgress.Kept (seconds : Float32) (policy : Expiry) (steps : List (Step Command))
    (cue : Cue) (children : Children steps) (os : List Occasion)
    (a : List Frame × BoundedProgress (Children steps))
    (alone : List Frame × Track (Children steps)) : Prop where
  frames : a.1 = alone.1
  body : a.2.body = alone.2
  /-- Whatever its children answer the list goes on, or is done. -/
  succeeds : ∀ f ∈ a.1, f.answer ≠ .ok .failed
  expires : (∀ f ∈ a.1, f.Unsettled) →
    (∃ beats, Beats cue steps (fun _ s => s) a.1 beats children alone.2.children ∧
      ((∀ f ∈ a.1, f.run.Follows) → List.Forall₂ (Beat.Told cue.site) a.1 beats) ∧
      alone.2.Turned steps.length beats) ∧
    ∀ o, timeTaken (os ++ [o]) > seconds →
      BoundedProgress.Expires seconds policy steps cue alone.2 o
        (BoundedProgress.frame seconds policy steps cue o.run o.dt (a.2, o.world))

/-- A bounded list is the list by itself until its time is up, and is over in the frame in which it
is. -/
theorem bounded_until_over (seconds : Float32) (policy : Expiry) (steps : List (Step Command))
    (cue : Cue) (run : Runner) (p : BoundedProgress (Children steps)) (s : Stage)
    (os : List Occasion) :
    let r := (Step.bounded seconds policy steps).enter run cue (p, s)
    let a := Play.frames (BoundedProgress.frame seconds policy steps cue) os r.2.1
    let alone := Play.frames (Track.frame · · cue steps) os p.body.rewound
    InTime seconds os →
    r.1 = .ok () ∧ r.2.2 = s ∧
    BoundedProgress.Kept seconds policy steps cue p.body.children os a alone := by
  intro r a alone htime
  obtain ⟨hframes, hbody, helapsed⟩ : a.1 = alone.1 ∧ a.2.body = alone.2 ∧
      a.2.elapsed = timeTaken os := BoundedProgress.frames_inTime policy cue r.2.1 rfl htime
  refine ⟨rfl, rfl, hframes, hbody, ?_, ?_⟩
  · rw [hframes]
    exact Track.frames_ne_failed cue os _
  · intro hunsettled
    rw [hframes] at hunsettled ⊢
    obtain ⟨beats, hbeats, hturned⟩ := (Track.Turned.rewound p.body _).frames cue os hunsettled
    have htold := hbeats.told fun _ t => ⟨[], rfl, List.forall_mem_nil _⟩
    refine ⟨⟨beats, hbeats, htold, hturned⟩, fun o ho => ?_⟩
    rw [timeTaken_concat, ← helapsed] at ho
    rw [← hbody]
    exact BoundedProgress.frame_expires policy cue (hbody ▸ hturned.inside) ho

/-- Entered again after an activation that was broken off: the first child fails at once and the
second one is in flight when the third frame takes the time over the bound. -/
theorem bounded_until_over_in_flight :
    let steps : List (Step Command) := [.probe "p" [.failed], .probe "q" [.running]]
    let cue : Cue := ⟨"a", .held "h"⟩
    let p : BoundedProgress (Children steps) :=
      { elapsed := 7, body := ⟨1, true, freshChildren (⟨·, 0⟩) steps⟩ }
    let o : Occasion := ⟨perform 1, 1, {}⟩
    let r := (Step.bounded 2.5 .fail steps).enter (perform 1) cue (p, {})
    let a := Play.frames (BoundedProgress.frame 2.5 .fail steps cue) [o, o] r.2.1
    let alone := Play.frames (Track.frame · · cue steps) [o, o] p.body.rewound
    InTime 2.5 [o, o] ∧ timeTaken [o, o, o] > 2.5 ∧ (∀ f ∈ a.1, f.Unsettled) ∧
    alone.2.cursor = 1 ∧ alone.2.entered = true ∧
    BoundedProgress.Kept 2.5 .fail steps cue p.body.children [o, o] a alone := by
  intro steps cue p o r a alone
  have htime : InTime 2.5 [o, o] :=
    inTime_concat.mpr ⟨inTime_concat.mpr ⟨.nil 2.5, by decide +kernel⟩, by decide +kernel⟩
  have hover : timeTaken [o, o, o] > 2.5 := by decide +kernel
  have hunsettled : ∀ f ∈ a.1, f.Unsettled := by decide +kernel
  have hstands : alone.2.cursor = 1 ∧ alone.2.entered = true := by decide +kernel
  obtain ⟨-, -, hkept⟩ := bounded_until_over 2.5 .fail steps cue (perform 1) p {} [o, o] htime
  exact ⟨htime, hover, hunsettled, hstands.1, hstands.2, hkept⟩

end Sequencer
