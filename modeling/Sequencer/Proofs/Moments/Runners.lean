import Sequencer.Proofs.Moments
import Sequencer.Proofs.Likeness.Steps

/-!
# Where user code runs

What a command does depends on how user code is carried out only where user code is run: at moments
that come after its own. Runners that do the same at every such moment have the command do the same,
whatever they do elsewhere. So nothing runs user code at a moment that is not reached.
-/

set_option autoImplicit false

namespace Sequencer

open Site (Nowhere Within)

theorem calledFrom_child {pending : List Errand} {σ : Site} (i : Nat)
    (h : calledFrom pending σ) : calledFrom pending (.child σ i) := by
  induction pending with
  | nil => exact h
  | cons e rest ih =>
    cases e with
    | driving id q part => exact Within.child i h
    | _ => exact ih h

theorem calledFrom_otherwise {pending : List Errand} {σ : Site} (i : Nat)
    (h : calledFrom pending σ) : calledFrom pending (.otherwise σ i) := by
  induction pending with
  | nil => exact h
  | cons e rest ih =>
    cases e with
    | driving id q part => exact Within.otherwise i h
    | _ => exact ih h

namespace Moment

variable {m k l : Moment}

theorem Before.trans (h : m.Before k) (h' : k.Before l) : m.Before l := by
  induction h' with
  | refl => exact h
  | step _ hs ih => exact ih.step hs

theorem Before.course {own : Site → Prop} {calm : Bool} {s t : Stage}
    (h : m.Before ⟨m.pending, s⟩) (hl : Leads own calm s t)
    (hw : ∀ σ, own σ → calledFrom m.pending σ ∨ σ.root = none) : m.Before ⟨m.pending, t⟩ :=
  h.step (.course (hl.widen hw))

/-- A course that calls no steps for itself. -/
theorem Before.aloof {calm : Bool} {s t : Stage} (h : m.Before ⟨m.pending, s⟩)
    (hl : Leads Nowhere calm s t) : m.Before ⟨m.pending, t⟩ :=
  h.course hl fun _ => False.elim

def likeness (m : Moment) : Likeness where
  related s t := t = s ∧ m.Before ⟨m.pending, s⟩
  own σ := calledFrom m.pending σ ∨ σ.root = none
  site σ := σ
  child _ i h := ⟨h.imp_left (calledFrom_child i), rfl⟩
  otherwise _ i h := ⟨h.imp_left (calledFrom_otherwise i), rfl⟩
  settings h := by rw [h.1]
  barriers h := by rw [h.1]
  host h := by rw [h.1]
  running h _ := by rw [h.1]
  paused h _ := by rw [h.1]
  note {s t e} h he := by
    have hr : e.isRemark = true := by cases e <;> first | rfl | exact he
    exact ⟨by rw [h.1], h.2.aloof (.aside (.note s hr))⟩
  polled {s t σ} c answer h _ := ⟨by rw [h.1], h.2.aloof (.aside (.note s rfl))⟩
  called {s t σ} c h hσ := ⟨by rw [h.1], h.2.course (.called s c (.inl hσ)) fun _ h => h⟩
  returned {s t σ} r h hσ := ⟨by rw [h.1], h.2.course (.returned s r (.inl hσ)) fun _ h => h⟩
  hosting {s t} host h := ⟨by rw [h.1], h.2.aloof (.aside (.host s host))⟩
  arrive {s t} barrier h := ⟨by rw [h.1], h.2.aloof (.aside (.arrive s barrier))⟩

def Agree (m : Moment) (run run' : Runner) : Prop :=
  ∀ k, m.Before k → ∀ c, run' c k.stage = run c k.stage

theorem Agree.later {run run' : Runner} (h : m.Agree run run') (hk : m.Before k) :
    k.Agree run run' := fun _ hl => h _ (hk.trans hl)

end Moment

section

variable {m : Moment} {α β : Type} {run run' : Runner}

theorem Act.Alike.same {x y : Act α} (h : Act.Alike m.likeness x y) : y m.stage = x m.stage := by
  obtain ⟨hr, ht, -⟩ := h m.stage m.stage ⟨rfl, .refl⟩
  exact Prod.ext hr ht

/-- Acts are alike if they do the same on every stage they may be done on. -/
theorem Act.Follows.alike {x y : Act α} (hx : x.Follows Nowhere)
    (h : ∀ s, m.Before ⟨m.pending, s⟩ → y s = x s) : Act.Alike m.likeness x y := by
  rintro _ s ⟨rfl, hs⟩
  rw [h s hs]
  exact ⟨rfl, rfl, hs.aloof (hx s)⟩

theorem Act.Follows.alike_self {x : Act α} (hx : x.Follows Nowhere) :
    Act.Alike m.likeness x x := hx.alike fun _ _ => rfl

theorem Moment.Agree.performAll (h : m.Agree run run') (hrun : run.Follows) (l : List Command) :
    Act.Alike m.likeness (performAll run l) (performAll run' l) :=
  performAll_alike fun c _ => (hrun c).alike fun _ hs => h _ hs c

namespace Conductor

/-- The callback runs when it has been told. -/
theorem notify_same {pending : List Errand} {s : Stage} {id : Nat} {hook : Hook}
    (h : Moment.Agree ⟨pending, s.notify id hook⟩ run run') (hrun : run.Follows) :
    notify run' id hook s = notify run id hook s := by
  rw [notify_apply, notify_apply]
  exact (h.performAll hrun _).same

theorem start_alike (h : m.Agree run run') (hrun : run.Follows) (name : String) :
    Act.Alike m.likeness (start run name) (start run' name) := by
  refine (start_follows hrun name).alike fun s hs => ?_
  cases hid : s.find? name with
  | none => rw [start, start, onNamed_none hid, onNamed_none hid]
  | some id =>
    rw [start, start, onNamed_some hid, onNamed_some hid, Act.bind_apply, Act.bind_apply]
    rcases hl : launch id s with ⟨r, u⟩
    rcases launch_cases Nowhere hl with ⟨hr, -⟩ | ⟨t, n, hq, hreg, hidle, rfl, rfl⟩
    · rcases r with e | e | ok
      · rfl
      · rfl
      · cases ok with
        | false => rfl
        | true => exact absurd rfl hr
    · have hfind : t.find? name = some id := by rw [← hid]; simp only [Stage.find?, hreg]
      have hstarted : m.Before ⟨m.pending, t.starting id n⟩ :=
        hs.aloof (hq.then (.started n hfind hidle))
      have htold := notify_same (h.later hstarted) hrun
      simp only [Act.bind_apply, Act.change]
      rw [htold]

/-- The run has ended when its callback is told, and the operation waits. -/
theorem breakOff_same {pending : List Errand} {s : Stage} {id : Nat}
    (hr : (s.sequence id).running = true)
    (h : Moment.Agree ⟨pending, s.ending id .stopped
      (.stopped (s.sequence id).name (s.sequence id).current)⟩ run run') (hrun : run.Follows) :
    breakOff run' id s = breakOff run id s := by
  have htold := notify_same h hrun
  simp only [breakOff, Act.bind_apply, Act.read, hr, if_true, Act.change, Act.say, Act.note]
  rw [htold]

theorem stop_alike (h : m.Agree run run') (hrun : run.Follows) (name : String) :
    Act.Alike m.likeness (stop run name) (stop run' name) := by
  refine (stop_follows hrun name).alike fun s hs => ?_
  cases hid : s.find? name with
  | none => rw [stop, stop, onNamed_none hid, onNamed_none hid]
  | some id =>
    rw [stop, stop, onNamed_some hid, onNamed_some hid, Act.bind_apply, Act.bind_apply]
    by_cases hr : (s.sequence id).running = true
    · rw [breakOff_same hr (h.later (hs.step (.begins (.stopping _ hid hr)))) hrun]
    · have hr : (s.sequence id).running = false := by simpa using hr
      rw [breakOff_idle run hr, breakOff_idle run' hr]

theorem remove_alike (h : m.Agree run run') (hrun : run.Follows) (name : String) :
    Act.Alike m.likeness (remove run name) (remove run' name) := by
  refine (remove_follows hrun name).alike fun s hs => ?_
  cases hid : s.find? name with
  | none => simp only [remove, Act.bind_apply, Act.read, hid]
  | some id =>
    simp only [remove, Act.bind_apply, Act.read, hid, Act.change]
    by_cases hr : (s.sequence id).running = true
    · rw [breakOff_same (s := s.unregister name) hr
        (h.later (hs.step (.begins (.removing _ hid hr)))) hrun]
    · have hr : (s.sequence id).running = false := by simpa using hr
      rw [breakOff_idle run (s := s.unregister name) hr,
        breakOff_idle run' (s := s.unregister name) hr]

/-- A step runs user code while its turn waits for it, and stops and starts sequences itself. -/
theorem runner_alike (h : m.Agree run run') (hrun : run.Follows) :
    Runner.Alike m.likeness run run' where
  command c := (hrun c).alike fun _ hs => h _ hs c
  start := start_alike h hrun
  stop := stop_alike h hrun

theorem driveStep_same {pending : List Errand} {s : Stage} {id : Nat} {part : Part}
    (h : Moment.Agree ⟨.driving id (s.sequence id) part :: pending, s.lending id⟩ run run')
    (hrun : run.Follows) (dt : Float32) :
    driveStep run' dt id (s.sequence id) part s = driveStep run dt id (s.sequence id) part s := by
  let k : Moment := ⟨.driving id (s.sequence id) part :: pending, s.lending id⟩
  let cue : Cue := { owner := (s.sequence id).name, site := .top id (s.sequence id).current }
  have hown : k.likeness.own cue.site := .inl .here
  have hstep : part.step.Alike k.likeness run run' cue.owner :=
    Step.alike_of (runner_alike h hrun) part.step
  have hnote : ∀ (n : Notice) (t u : Stage), k.likeness.related t u →
      k.likeness.related (t.note (.notice n)) (u.note (.notice n)) := by
    rintro n _ t ⟨rfl, ht⟩
    exact ⟨rfl, ht.aloof (.aside (.note t rfl))⟩
  have hplay : Play.Alike k.likeness (playPart run dt id (s.sequence id) part)
      (playPart run' dt id (s.sequence id) part) :=
    Cue.drive_alike (L := k.likeness) (c := cue) hown (hnote _) (fun status => hnote _)
      (Step.enter_alike part.step cue hown hstep) (Step.tick_alike part.step cue hown rfl hstep)
      (Step.exit_alike part.step cue hstep)
  obtain ⟨hr, hp, ht, -⟩ := hplay part.progress _ _ ⟨rfl, .refl⟩
  rcases hx : playPart run dt id (s.sequence id) part (part.progress, s.lending id) with ⟨r, p, t⟩
  have hy : playPart run' dt id (s.sequence id) part (part.progress, s.lending id) =
      (r, p, t) := by
    rw [hx] at hr hp ht
    exact Prod.ext hr (Prod.ext hp ht)
  rw [driveStep_apply hx, driveStep_apply hy]

theorem takeTurn_alike (h : m.Agree run run') (hrun : run.Follows) (dt : Float32) (id : Nat) :
    Act.Alike m.likeness (takeTurn run dt id) (takeTurn run' dt id) := by
  refine (takeTurn_follows hrun dt id).alike fun s hs => ?_
  by_cases hp : (s.sequence id).paused = true
  · rw [takeTurn_paused hp, takeTurn_paused hp]
  have hp : (s.sequence id).paused = false := by simpa using hp
  suffices hturn : turn run' dt id s = turn run dt id s by
    rw [takeTurn_unpaused hp, takeTurn_unpaused hp, hturn]
  by_cases hr : (s.sequence id).running = false
  · rw [turn_idle hr, turn_idle hr]
  have hr : (s.sequence id).running = true := by simpa using hr
  by_cases hc : (s.sequence id).stepCount ≤ (s.sequence id).current
  · rw [turn_completed hr hc, turn_completed hr hc]
    exact notify_same (h.later (hs.step (.begins (.completing _ ⟨hp, hr⟩ hc)))) hrun
  have hc : (s.sequence id).current < (s.sequence id).stepCount := Nat.lt_of_not_le hc
  by_cases hb : (s.sequence id).ticking = true
  · rw [turn_busy hr hc hb, turn_busy hr hc hb]
  have hb : (s.sequence id).ticking = false := by simpa using hb
  have hpart := List.getElem?_eq_getElem (l := (s.sequence id).parts) hc
  rw [turn_driven hr hpart hb, turn_driven hr hpart hb]
  exact driveStep_same (h.later (hs.step (.begins (.driving ⟨hp, hr⟩ hb hpart)))) hrun dt

theorem takeTurns_alike (h : m.Agree run run') (hrun : run.Follows) (dt : Float32)
    (l : List Nat) : Act.Alike m.likeness (takeTurns run dt l) (takeTurns run' dt l) := by
  induction l with
  | nil => exact .pure ()
  | cons id rest ih => exact .bind (takeTurn_alike h hrun dt id) fun _ => ih

theorem tick_alike (h : m.Agree run run') (hrun : run.Follows) (dt : Float32) :
    Act.Alike m.likeness (tick run dt) (tick run' dt) :=
  .bind (.read fun _ _ hst => by rw [hst.1]) fun l => takeTurns_alike h hrun dt l

theorem tickMany_alike (h : m.Agree run run') (hrun : run.Follows) (dt : Float32)
    (first n : Nat) : Act.Alike m.likeness (tickMany run dt first n) (tickMany run' dt first n) := by
  induction n generalizing first with
  | zero => exact .pure ()
  | succ n ih =>
    have hnote : (Act.note (.frame first)).Follows Nowhere := .of_remarks (.note rfl)
    exact .bind hnote.alike_self fun _ => .bind (tick_alike h hrun dt) fun _ => ih _

end Conductor

namespace Hands

variable {slot : String}

/-- A step in the hands of the host is played with while its slot is empty. -/
theorem playPart_alike {play play' : (s : Step Command) → Play s.Progress α}
    {answer : Part → α → Reply} (h : ∀ s, Play.Alike m.likeness (play s) (play' s)) :
    Act.Alike m.likeness (playPart slot play answer) (playPart slot play' answer) := by
  rintro _ s ⟨rfl, hs⟩
  simp only [playPart]
  split
  · next p hp =>
    obtain ⟨hr, hpart, hstage, hu⟩ :=
      h p.step p.progress _ _ ⟨rfl, hs.aloof (erase_leads s slot)⟩
    rw [hr, hpart, hstage]
    exact ⟨rfl, rfl, hu.aloof (put_leads _ slot fun q => by simp)⟩
  · exact ⟨rfl, rfl, hs⟩

theorem playTrack_alike {play play' : (t : HeldTrack) → Play (Track (Children t.steps)) α}
    {answer : HeldTrack → α → Reply} (h : ∀ t, Play.Alike m.likeness (play t) (play' t)) :
    Act.Alike m.likeness (playTrack slot play answer) (playTrack slot play' answer) := by
  rintro _ s ⟨rfl, hs⟩
  simp only [playTrack]
  split
  · next t ht =>
    obtain ⟨hr, htrack, hstage, hu⟩ := h t t.track _ _ ⟨rfl, hs.aloof (erase_leads s slot)⟩
    rw [hr, htrack, hstage]
    exact ⟨rfl, rfl, hu.aloof (put_leads _ slot fun q => by simp)⟩
  · exact ⟨rfl, rfl, hs⟩

theorem cueOf_own (slot : String) : m.likeness.own (cueOf slot).site := .inr rfl

/-- Held steps are called for the host. -/
theorem held_alike (h : m.Agree run run') (hrun : run.Follows) (s : Step Command) :
    s.Alike m.likeness run run' "host" := Step.alike_of (Conductor.runner_alike h hrun) s

theorem heldList_alike (h : m.Agree run run') (hrun : run.Follows) (l : List (Step Command)) :
    stepsAlike m.likeness run run' "host" l := stepsAlike_of (Conductor.runner_alike h hrun) l

theorem enter_alike (h : m.Agree run run') (hrun : run.Follows) (slot : String) :
    Act.Alike m.likeness (enter run slot) (enter run' slot) :=
  playPart_alike fun s => Cue.enter_alike (c := cueOf slot) (cueOf_own slot)
    (Step.enter_alike s _ (cueOf_own slot) (held_alike h hrun s))

theorem exit_alike (h : m.Agree run run') (hrun : run.Follows) (slot : String) :
    Act.Alike m.likeness (exit run slot) (exit run' slot) :=
  playPart_alike fun s => Cue.exit_alike (c := cueOf slot) (cueOf_own slot)
    (Step.exit_alike s _ (held_alike h hrun s))

theorem tick_alike (h : m.Agree run run') (hrun : run.Follows) (slot : String) (dt : Float32) :
    Act.Alike m.likeness (tick run slot dt) (tick run' slot dt) :=
  playPart_alike fun s => Cue.tick_alike (c := cueOf slot) (cueOf_own slot)
    (Step.tick_alike s _ (cueOf_own slot) rfl (held_alike h hrun s))

theorem tickTrack_alike (h : m.Agree run run') (hrun : run.Follows) (slot : String)
    (dt : Float32) : Act.Alike m.likeness (tickTrack run slot dt) (tickTrack run' slot dt) :=
  playTrack_alike fun t => Track.tick_alike
    (driveChild_alike t.steps (cueOf slot) (cueOf_own slot) rfl (heldList_alike h hrun t.steps))

theorem cancelTrack_alike (h : m.Agree run run') (hrun : run.Follows) (slot : String) :
    Act.Alike m.likeness (cancelTrack run slot) (cancelTrack run' slot) := by
  have hown : m.likeness.own (cueOf slot).site := cueOf_own slot
  exact playTrack_alike fun t =>
    Track.cancel_alike (exitChild_alike t.steps (cueOf slot) hown (heldList_alike h hrun t.steps))

end Hands

theorem dispatch_alike (h : m.Agree run run') (hrun : run.Follows) (c : Command) :
    Act.Alike m.likeness (dispatch run c) (dispatch run' c) := by
  cases c with
  | start name => exact .bind (Conductor.start_alike h hrun name) fun _ => .pure _
  | stop name => exact .bind (Conductor.stop_alike h hrun name) fun _ => .pure _
  | remove name => exact .bind (Conductor.remove_alike h hrun name) fun _ => .pure _
  | tick dt n =>
    cases n with
    | none => exact .bind (Conductor.tick_alike h hrun dt) fun _ => .pure _
    | some n => exact .bind (Conductor.tickMany_alike h hrun dt 0 n) fun _ => .pure _
  | enterHeld slot => exact Hands.enter_alike h hrun slot
  | tickHeld slot dt => exact Hands.tick_alike h hrun slot dt
  | exitHeld slot => exact Hands.exit_alike h hrun slot
  | tickTrack slot dt => exact Hands.tickTrack_alike h hrun slot dt
  | cancelTrack slot => exact Hands.cancelTrack_alike h hrun slot
  -- The others never get to see a runner.
  | restore target => cases target <;> exact (dispatch_follows hrun _).alike_self
  | _ => exact (dispatch_follows hrun _).alike_self

/-- At a moment that is reached, a command runs user code at moments that are reached, and nowhere
else: runners that do the same there have the command do the same. -/
theorem Moment.Reached.dispatch_congr (h : m.Reached) (hrun : run.Follows)
    (hagree : ∀ k : Moment, k.Reached → ∀ c, run' c k.stage = run c k.stage) (c : Command) :
    dispatch run' c m.stage = dispatch run c m.stage := by
  have hm : m.Agree run run' := fun k hk => hagree k (h.later hk)
  exact (dispatch_alike hm hrun c).same

end

end Sequencer
