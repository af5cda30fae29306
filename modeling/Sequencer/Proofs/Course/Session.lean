import Sequencer.Proofs.Course.Steps

/-!
# Courses of sessions

The turns of a frame, what the host does with the steps in its hands, and every command follow
courses. A session is a series of commands of the host, each of them with whatever user code
there may be behind its callbacks; what a session does is a course as well.
-/

set_option autoImplicit false

namespace Sequencer

open Site (Nowhere Within Below)

section

variable {own : Site → Prop} {run : Runner}

namespace Conductor

theorem playPart_follows (hrun : run.Follows) (dt : Float32) (id : Nat) (q : Sequence)
    (part : Part) : (playPart run dt id q part).Follows (Within (.top id q.current)) := by
  let cue : Cue := { owner := q.name, site := .top id q.current }
  exact Cue.drive_follows (c := cue) (Step.enter_follows hrun _ _) (Step.tick_follows hrun _ _)
    (Step.exit_follows hrun _ _)

/-- After the play with the step at the cursor the step comes back, and the cursor moves. -/
theorem driveStep_apply {dt : Float32} {id : Nat} {q : Sequence} {part : Part} {s t : Stage}
    {r : Except Halt Status} {p : part.step.Progress}
    (h : playPart run dt id q part (part.progress, s.lending id) = (r, p, t)) :
    driveStep run dt id q part s =
      (r.map fun _ => (), t.afterPlay id q ⟨part.step, p⟩ r) := by
  have hl : lend id q.current part (playPart run dt id q part)
      ((s.note (.turn id .driven)).modify id fun q => { q with entered := true }) =
      (r, t.returning id q.current ⟨part.step, p⟩) := by
    show (fun x : Except Halt Status × part.step.Progress × Stage =>
      (x.1, x.2.2.returning id q.current ⟨part.step, x.2.1⟩))
        (playPart run dt id q part (part.progress, s.lending id)) = _
    rw [h]
  simp only [driveStep, Act.bind_apply, Act.note, Act.change, hl]
  cases r with
  | error e => rfl
  | ok status =>
    simp only [Stage.afterPlay, Stage.advancing, Except.map]
    cases ht : status.isTerminal with
    | false => rfl
    | true =>
      simp only [Act.bind_apply, Act.read, if_true, true_and]
      split <;> rfl

section

variable {dt : Float32} {id : Nat} {s : Stage}

theorem turn_idle (h : (s.sequence id).running = false) :
    turn run dt id s = (.ok (), s.note (.turn id .idle)) := by
  simp only [turn, Act.bind_apply, Act.read, h]
  rfl

theorem turn_completed (h : (s.sequence id).running = true)
    (hc : (s.sequence id).stepCount ≤ (s.sequence id).current) :
    turn run dt id s = finish run id (s.note (.turn id .completed)) := by
  simp only [turn, Act.bind_apply, Act.read, h, hc, if_true]
  rfl

theorem turn_busy (h : (s.sequence id).running = true)
    (hc : (s.sequence id).current < (s.sequence id).stepCount)
    (hb : (s.sequence id).ticking = true) : turn run dt id s =
      (.ok (), (s.note (.turn id .busy)).note
        (.notice (.alreadyTicking (s.sequence id).name))) := by
  simp only [turn, Act.bind_apply, Act.read, h, hb, Nat.not_le.mpr hc, if_true, if_false]
  rfl

theorem turn_driven (h : (s.sequence id).running = true) {part : Part}
    (hp : (s.sequence id).parts[(s.sequence id).current]? = some part)
    (hb : (s.sequence id).ticking = false) :
    turn run dt id s = driveStep run dt id (s.sequence id) part s := by
  have hc : (s.sequence id).current < (s.sequence id).stepCount :=
    (List.getElem?_eq_some_iff.mp hp).1
  simp only [turn, Act.bind_apply, Act.read, h, hb, hp, Nat.not_le.mpr hc, if_false]
  rfl

theorem takeTurn_paused (h : (s.sequence id).paused = true) :
    takeTurn run dt id s = (.ok (), s.note (.turn id .paused)) := by
  simp only [takeTurn, Act.bind_apply, Act.read, h]
  rfl

theorem takeTurn_unpaused (h : (s.sequence id).paused = false) : takeTurn run dt id s =
    match turn run dt id s with
      | (.ok _, t) => (.ok (), t.sweep id)
      | (.error e, t) => (.error e, t) := by
  simp only [takeTurn, Act.bind_apply, Act.read, h]
  rw [if_neg (by simp), Act.bind_apply]
  rcases turn run dt id s with ⟨e | a, t⟩
  · rfl
  · simp only [Act.bind_apply, Act.read, Stage.sweep]
    cases (t.sequence id).running <;> rfl

/-- Unless the step halts, the turn that drives it ends with a sweep. -/
theorem takeTurn_driven (hdue : s.Due id) {part : Part}
    (hp : (s.sequence id).parts[(s.sequence id).current]? = some part)
    (hb : (s.sequence id).ticking = false) {t : Stage} {r : Except Halt Status}
    {p : part.step.Progress}
    (h : playPart run dt id (s.sequence id) part (part.progress, s.lending id) = (r, p, t)) :
    takeTurn run dt id s = (r.map fun _ => (),
      let u := t.afterPlay id (s.sequence id) ⟨part.step, p⟩ r
      if r.isOk then u.sweep id else u) := by
  rw [takeTurn_unpaused hdue.unpaused, turn_driven hdue.running hp hb, driveStep_apply h]
  cases r <;> rfl

theorem sweep_running (h : (s.sequence id).running = true) : s.sweep id = s := by
  simp [Stage.sweep, h]

end

theorem driveStep_leads (own : Site → Prop) (hrun : run.Follows) (dt : Float32) {id : Nat}
    {s : Stage} {part : Part} (hdue : s.Due id) (hb : (s.sequence id).ticking = false)
    (hp : (s.sequence id).parts[(s.sequence id).current]? = some part) :
    Leads own (driveStep run dt id (s.sequence id) part s).1.isOk s
      (let d := driveStep run dt id (s.sequence id) part s
        if d.1.isOk then d.2.sweep id else d.2) := by
  rcases h : playPart run dt id (s.sequence id) part (part.progress, s.lending id) with ⟨r, p, t⟩
  have hf := playPart_follows hrun dt id (s.sequence id) part (part.progress, s.lending id)
  rw [h] at hf
  have hd : Leads own r.isOk s _ := .driven run dt hdue hb hp hrun h hf
  rw [driveStep_apply h]
  cases r with
  | error e => exact hd
  | ok status => exact hd

theorem takeTurn_follows (hrun : run.Follows) (dt : Float32) (id : Nat) :
    (takeTurn run dt id).Follows own := by
  intro s
  by_cases hp : (s.sequence id).paused = true
  · rw [takeTurn_paused hp]
    exact .passed hp
  have hp : (s.sequence id).paused = false := by simpa using hp
  rw [takeTurn_unpaused hp]
  by_cases hr : (s.sequence id).running = false
  · rw [turn_idle hr]
    exact .idle hp hr
  have hr : (s.sequence id).running = true := by simpa using hr
  by_cases hc : (s.sequence id).stepCount ≤ (s.sequence id).current
  · rw [turn_completed hr hc]
    have h := finish_leads own hrun id (s.note (.turn id .completed))
    rcases ht : finish run id (s.note (.turn id .completed)) with ⟨e | a, t⟩ <;> rw [ht] at h
    · exact .completed _ ⟨hp, hr⟩ hc h
    · exact .completed _ ⟨hp, hr⟩ hc h
  have hc : (s.sequence id).current < (s.sequence id).stepCount := by omega
  by_cases hb : (s.sequence id).ticking = true
  · rw [turn_busy hr hc hb]
    have hs : ∀ e e' : Entry, ((s.note e).note e').sweep id = ((s.note e).sweep id).note e' := by
      intro e e'
      rw [sweep_running (s := s.note e) hr, sweep_running (s := (s.note e).note e') hr]
    show Leads own true s (((s.note _).note _).sweep id)
    rw [hs]
    exact (Leads.busy ⟨hp, hr⟩ hc hb).then (.aside (.note _ rfl))
  have hb : (s.sequence id).ticking = false := by simpa using hb
  have hpart := List.getElem?_eq_getElem (l := (s.sequence id).parts) hc
  rw [turn_driven hr hpart hb]
  have hd := driveStep_leads own hrun dt ⟨hp, hr⟩ hb hpart
  rcases ht : driveStep run dt id (s.sequence id) _ s with ⟨e | a, t⟩ <;> rw [ht] at hd
  · exact hd
  · exact hd

theorem takeTurns_follows (hrun : run.Follows) (dt : Float32) (l : List Nat) :
    (takeTurns run dt l).Follows own := by
  induction l with
  | nil => exact .pure ()
  | cons id rest ih => exact .bind (takeTurn_follows hrun dt id) fun _ => ih

theorem tick_follows (hrun : run.Follows) (dt : Float32) : (tick run dt).Follows own :=
  .bind (.of_remarks (.read _)) fun l => takeTurns_follows hrun dt l

theorem tickMany_follows (hrun : run.Follows) (dt : Float32) (first n : Nat) :
    (tickMany run dt first n).Follows own := by
  induction n generalizing first with
  | zero => exact .pure ()
  | succ n ih =>
    exact .bind (.of_remarks (.note rfl)) fun _ => .bind (tick_follows hrun dt) fun _ => ih _

end Conductor

theorem isOk_map {ε α β : Type} (f : α → β) (r : Except ε α) : (r.map f).isOk = r.isOk := by
  cases r <;> rfl

namespace Hands

theorem put_leads (s : Stage) (slot : String) {h : Held} (hh : ∀ q, h ≠ .sequence q) :
    Leads own true s { s with held := s.held.put slot h } := by
  refine .held s _ fun key q hq => .inl ?_
  by_cases hk : key = slot
  · subst hk
    rw [Table.get?_put_self] at hq
    exact absurd (Option.some.inj hq) (hh q)
  · rwa [Table.get?_put_ne _ _ hk] at hq

theorem erase_leads (s : Stage) (slot : String) :
    Leads own true s { s with held := s.held.erase slot } := by
  refine .held s _ fun key q hq => .inl ?_
  by_cases hk : key = slot
  · subst hk
    rw [Table.get?_erase_self] at hq
    exact absurd hq (by simp)
  · rwa [Table.get?_erase_ne _ hk] at hq

/-- A play with what is in a slot, while the slot is empty. -/
theorem borrow_leads {s u : Stage} {calm : Bool} {slot : String} {h : Held}
    (hh : ∀ q, h ≠ .sequence q)
    (hp : Leads (Within (.held slot)) calm { s with held := s.held.erase slot } u) :
    Leads own calm s { u with held := u.held.put slot h } := by
  have hp : Leads own calm { s with held := s.held.erase slot } u :=
    hp.widen fun _ hσ => .inr hσ.root_eq
  have hl := ((erase_leads s slot).then hp).trans (put_leads u slot hh)
  rwa [Bool.and_true] at hl

theorem playPart_follows {α : Type} {slot : String} {play : (s : Step Command) → Play s.Progress α}
    {answer : Part → α → Reply} (h : ∀ s, (play s).Follows (Within (.held slot))) :
    (playPart slot play answer).Follows own := by
  intro s
  simp only [playPart]
  split
  · next p hp =>
    rw [isOk_map]
    exact borrow_leads (fun q => by simp) (h p.step (p.progress, _))
  · exact .refl s

theorem playTrack_follows {α : Type} {slot : String}
    {play : (t : HeldTrack) → Play (Track (Children t.steps)) α} {answer : HeldTrack → α → Reply}
    (h : ∀ t, (play t).Follows (Within (.held slot))) :
    (playTrack slot play answer).Follows own := by
  intro s
  simp only [playTrack]
  split
  · next t ht =>
    rw [isOk_map]
    exact borrow_leads (fun q => by simp) (h t (t.track, _))
  · exact .refl s

theorem resolver_follows : resolver.Follows own := .of_remarks (.bind (.read _) fun _ => .pure _)

theorem put_follows {slot : String} {h : Held} (hh : ∀ q, h ≠ .sequence q) :
    (put slot h).Follows own := fun s => put_leads s slot hh

theorem holdStep_follows (slot : String) (step : Step Command) :
    (holdStep slot step).Follows own :=
  .bind resolver_follows fun _ => .bind (put_follows fun q => by simp) fun _ => .pure _

theorem holdTrack_follows (slot : String) (steps : List (Step Command)) (onFailure : OnFailure) :
    (holdTrack slot steps onFailure).Follows own :=
  .bind resolver_follows fun _ => .bind (put_follows fun q => by simp) fun _ => .pure _

theorem enter_follows (hrun : run.Follows) (slot : String) : (enter run slot).Follows own :=
  playPart_follows fun s => Cue.enter_follows (c := cueOf slot) (Step.enter_follows hrun s _)

theorem exit_follows (hrun : run.Follows) (slot : String) : (exit run slot).Follows own :=
  playPart_follows fun s => Cue.exit_follows (c := cueOf slot) (Step.exit_follows hrun s _)

theorem tick_follows (hrun : run.Follows) (slot : String) (dt : Float32) :
    (tick run slot dt).Follows own :=
  playPart_follows fun s => Cue.tick_follows (c := cueOf slot) (Step.tick_follows hrun s _)

theorem tickTrack_follows (hrun : run.Follows) (slot : String) (dt : Float32) :
    (tickTrack run slot dt).Follows own :=
  playTrack_follows fun t => Track.tick_follows fun i fresh =>
    (driveNth_follows hrun t.steps ((cueOf slot).child i) i i fresh).widen fun _ hσ =>
      (below_of_within_child (c := cueOf slot) _ hσ).within

theorem cancelTrack_follows (hrun : run.Follows) (slot : String) :
    (cancelTrack run slot).Follows own :=
  playTrack_follows fun t => Track.cancel_follows fun i =>
    (exitNth_follows hrun t.steps ((cueOf slot).child i) i).widen fun _ hσ =>
      (below_of_within_child (c := cueOf slot) _ hσ).within

theorem rewindTrack_follows (slot : String) : (rewindTrack slot).Follows own :=
  playTrack_follows fun _ => .change _

theorem holdSequence_follows (slot : String) (o : Outline Command) :
    (holdSequence slot o).Follows own := by
  intro s
  refine .held s _ fun key q hq => ?_
  by_cases hk : key = slot
  · subst hk
    rw [Table.get?_put_self] at hq
    exact .inr ⟨_, o, (Held.sequence.inj (Option.some.inj hq)).symm⟩
  · exact .inl (by rwa [Table.get?_put_ne _ _ hk] at hq)

theorem register_follows (slot : String) : (register slot).Follows own := by
  intro s
  simp only [register]
  split
  · next q hq =>
    rw [isOk_map]
    simp only [Conductor.enroll, Act.bind_apply, Act.read]
    split
    · exact erase_leads s slot
    · next h =>
      have hname : s.find? q.name = none := by simpa [Stage.find?] using h
      exact (Leads.aside (.note s rfl)).then (.registeredHeld hq hname)
  · exact .refl s

end Hands

theorem onHost_remarks (f : Host → Host) : (onHost f).Remarks := .host _

theorem resolved_remarks (label : String) : (resolved label).Remarks :=
  .bind (.read _) fun _ => .pure _

theorem Change.apply_remarks (c : Change) : c.apply.Remarks := by
  cases c with
  | engine frame elapsed timeScale => exact .bind (onHost_remarks _) fun _ => .pure _
  | flag name value => exact .bind (onHost_remarks _) fun _ => .pure _
  | count name amount => exact .bind (.read _) fun _ => .bind (onHost_remarks _) fun _ => .pure _
  | publish event => exact .bind (Simple.publish_remarks event) fun _ => .pure _
  | takeEvents => exact .bind (.read _) fun _ => .bind (onHost_remarks _) fun _ => .pure _
  | addSystem name => exact .bind (.inScene _) fun _ => .pure _
  | invoke system command =>
    exact .bind (Simple.invokeSystem_remarks system command) fun _ => .pure _
  | spawn label pose => exact .bind (.inScene _) fun _ => .bind (onHost_remarks _) fun _ => .pure _
  | despawn label =>
    exact .bind (resolved_remarks label) fun _ => .bind (.inScene _) fun _ => .pure _
  | addComponent label component enabled =>
    exact .bind (resolved_remarks label) fun _ => .bind (.inScene _) fun _ => .pure _
  | setComponent label component enabled =>
    exact .bind (resolved_remarks label) fun id =>
      .bind (Simple.setComponent_remarks id component enabled) fun _ => .pure _
  | setPose label pose =>
    exact .bind (resolved_remarks label) fun id =>
      .bind (Simple.setPose_remarks id pose) fun _ => .pure _
  | lock label =>
    exact .bind (resolved_remarks label) fun _ => .bind (onHost_remarks _) fun _ => .pure _
  | arrive barrier =>
    exact .bind (fun s => .arrive s barrier) fun _ => .bind (.read _) fun _ => .pure _

theorem capture_follows (name : String) (keepAs : Option String) :
    (dispatch run (.capture name keepAs)).Follows own := by
  refine .bind (Conductor.capture_follows name) fun b => ?_
  dsimp only
  split
  · exact .bind (.of_remarks (onHost_remarks _)) fun _ => .pure _
  · exact .pure (Reply.bookmark b)

/-- A command does nothing but what its own operation does and what callbacks do. -/
theorem dispatch_follows (hrun : run.Follows) : (c : Command) → (dispatch run c).Follows own
  | .register outline => .bind (Conductor.register_follows outline) fun _ => .pure _
  | .start name => .bind (Conductor.start_follows hrun name) fun _ => .pure _
  | .stop name => .bind (Conductor.stop_follows hrun name) fun _ => .pure _
  | .pause name => .bind (Conductor.setPaused_follows name _) fun _ => .pure _
  | .resume name => .bind (Conductor.setPaused_follows name _) fun _ => .pure _
  | .togglePause name => .bind (Conductor.setPaused_follows name _) fun _ => .pure _
  | .reset name => .bind (Conductor.reset_follows name) fun _ => .pure _
  | .remove name => .bind (Conductor.remove_follows hrun name) fun _ => .pure _
  | .tick dt none => .bind (Conductor.tick_follows hrun dt) fun _ => .pure _
  | .tick dt (some n) => .bind (Conductor.tickMany_follows hrun dt 0 n) fun _ => .pure _
  | .capture name keepAs => capture_follows name keepAs
  | .restore (.at b) => .bind (Conductor.restore_follows b) fun _ => .pure _
  | .restore (.kept key) => by
    refine .bind (.of_remarks (.read _)) fun b => ?_
    cases b with
    | some b => exact .bind (Conductor.restore_follows b) fun _ => .pure _
    | none => exact .pure _
  | .ask query => .of_remarks (.read _)
  | .edit change => .of_remarks change.apply_remarks
  | .panic message => .of_remarks (.halt _)
  | .holdStep slot step => Hands.holdStep_follows slot step
  | .enterHeld slot => Hands.enter_follows hrun slot
  | .tickHeld slot dt => Hands.tick_follows hrun slot dt
  | .exitHeld slot => Hands.exit_follows hrun slot
  | .holdTrack slot steps onFailure => Hands.holdTrack_follows slot steps onFailure
  | .tickTrack slot dt => Hands.tickTrack_follows hrun slot dt
  | .cancelTrack slot => Hands.cancelTrack_follows hrun slot
  | .rewindTrack slot => Hands.rewindTrack_follows slot
  | .holdSequence slot outline => Hands.holdSequence_follows slot outline
  | .registerHeld slot => Hands.register_follows slot

end

/-- Commands of the host in order, each with any user code behind its callbacks whose own doings
are sessions again. The session is calm as long as nothing in it halts; a host may go on after a
halt. -/
inductive Session : Bool → Stage → Stage → Prop
  | refl (s : Stage) : Session true s s
  | halted {calm : Bool} {s t : Stage} : Session calm s t → Session false s t
  | command {calm : Bool} {s t : Stage} (run : Runner) (c : Command)
      (callbacks : ∀ c u, Session (run c u).1.isOk u (run c u).2) :
      Session calm s t → Session (calm && (dispatch run c t).1.isOk) s (dispatch run c t).2

def Stage.calmly : List Command → Stage → Bool
  | [], _ => true
  | c :: rest, s => (perform maxDepth c s).1.isOk && calmly rest (s.step c).2

namespace Session

variable {calm : Bool} {s t : Stage}

theorem leads (h : Session calm s t) : Leads Nowhere calm s t := by
  induction h with
  | refl s => exact .refl s
  | halted _ ih => exact ih.halt
  | command run c _ _ callbacks ih => exact ih.trans (dispatch_follows callbacks c _)

theorem trans {calm' : Bool} {u : Stage} (h : Session calm s t) (h' : Session calm' t u) :
    Session (calm && calm') s u := by
  induction h' with
  | refl _ => rwa [Bool.and_true]
  | halted _ ih => rw [Bool.and_false]; exact (ih h).halted
  | command run c callbacks _ _ ih =>
    rw [← Bool.and_assoc]
    exact (ih h).command run c callbacks

/-- Callbacks that nest less deep than `depth` make a session. -/
theorem perform (depth : Nat) (c : Command) (s : Stage) :
    Session (perform depth c s).1.isOk s (perform depth c s).2 := by
  induction depth generalizing c s with
  | zero => exact (Session.refl s).halted
  | succ depth ih =>
    have h := (Session.refl s).command _ c ih
    rwa [Bool.true_and] at h

/-- What the host sees of a run of commands is a session. -/
theorem run (log : Bool) (l : List Command) (s : Stage) :
    Session (s.calmly l) s (s.run log l).2 := by
  induction l generalizing s with
  | nil => exact .refl s
  | cons c rest ih => exact (Session.perform maxDepth c s).trans (ih (s.report log c).2)

end Session

def Stage.opening (settings : Settings) (host : Host) : Stage := { settings, host }

end Sequencer
