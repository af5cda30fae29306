import Sequencer.Proofs.Likeness.Steps
import Sequencer.Proofs.Removal.Rests

/-!
# Removal

What is left of a sequence after it was removed is the work of operations that were under way. They
know the sequence by its number, so a new sequence of the same name is out of their reach.
-/

set_option autoImplicit false

namespace Sequencer

open Site (Nowhere Within)

namespace Stage

variable (s : Stage) {id : Nat}

theorem active_delist_of_not_mem (h : id ∉ s.active) : (s.delist id).active = s.active := by
  apply List.filter_eq_self.mpr
  intro i hi
  exact decide_eq_true fun heq => h (heq ▸ hi)

/-- A sequence that is not in the active list is not taken out of it. -/
theorem delist_of_not_mem (h : id ∉ s.active) : s.delist id = s := by
  have ha := s.active_delist_of_not_mem h
  cases s
  simp_all [delist]

end Stage

/-- Nothing changes but the sequence itself, its own place in the active list, and the journal. -/
structure Stage.Confined (id : Nat) (s t : Stage) : Prop where
  length : t.sequences.length = s.sequences.length
  others : ∀ i, i ≠ id → t.sequence i = s.sequence i
  registry : t.registry = s.registry
  active : t.active.filter (· ≠ id) = s.active.filter (· ≠ id)
  settings : t.settings = s.settings
  barriers : t.barriers = s.barriers
  host : t.host = s.host
  held : t.held = s.held

namespace Stage.Confined

variable {id : Nat} {s t u : Stage}

theorem refl (id : Nat) (s : Stage) : Stage.Confined id s s :=
  ⟨rfl, fun _ _ => rfl, rfl, rfl, rfl, rfl, rfl, rfl⟩

theorem trans (h : Stage.Confined id s t) (h' : Stage.Confined id t u) : Stage.Confined id s u where
  length := h'.length.trans h.length
  others i hi := (h'.others i hi).trans (h.others i hi)
  registry := h'.registry.trans h.registry
  active := h'.active.trans h.active
  settings := h'.settings.trans h.settings
  barriers := h'.barriers.trans h.barriers
  host := h'.host.trans h.host
  held := h'.held.trans h.held

theorem note (id : Nat) (s : Stage) (e : Entry) : Stage.Confined id s (s.note e) :=
  { refl id s with others := fun _ _ => rfl }

theorem modify (id : Nat) (s : Stage) (f : Sequence → Sequence) :
    Stage.Confined id s (s.modify id f) :=
  { refl id s with
    length := s.length_modify id f
    others := fun _ hi => s.sequence_modify_ne f hi }

theorem delist (id : Nat) (s : Stage) : Stage.Confined id s (s.delist id) :=
  { refl id s with
    active := by simp [Stage.delist, List.filter_filter] }

theorem sweep (id : Nat) (s : Stage) : Stage.Confined id s (s.sweep id) := by
  unfold Stage.sweep
  split
  · exact .refl id s
  · exact .delist id s

theorem afterPlay (id : Nat) (s : Stage) (q : Sequence) (part : Part) (r : Except Halt Status) :
    Stage.Confined id s (s.afterPlay id q part r) := by
  have hr : Stage.Confined id s (s.returning id q.current part) := .modify id s _
  cases r with
  | error e => exact hr
  | ok status =>
    have hd := hr.trans (.note id _ (.drove id status))
    simp only [Stage.afterPlay, Stage.advancing]
    split
    · exact (hd.trans (.modify id _ _)).trans (.note id _ _)
    · exact hd

theorem active_eq (h : Stage.Confined id s t) (hs : id ∉ s.active) (ht : id ∉ t.active) :
    t.active = s.active := by
  rw [← s.active_delist_of_not_mem hs, ← t.active_delist_of_not_mem ht]
  exact h.active

end Stage.Confined

/-- What is left to do of an operation is done to its own sequence: the step comes back, the cursor
moves on, and the sequence leaves the active list. -/
theorem Errand.Ends.confined {e : Errand} {s t : Stage} (h : e.Ends s t) :
    Stage.Confined e.id s t := by
  cases h with
  | driven _ id q part p status =>
    exact (Stage.Confined.afterPlay id s q ⟨part.step, p⟩ (.ok status)).trans (.sweep id _)
  | broken _ id q part p h => exact .afterPlay id s q _ _
  | stopped _ id => exact (Stage.Confined.note id s _).trans (.delist id _)
  | removed _ id => exact .delist id s
  | completed _ id => exact .sweep id s
  | abandoned => exact .refl _ s

structure Stage.SameCast (s t : Stage) : Prop where
  sequences : t.sequences = s.sequences
  registry : t.registry = s.registry
  active : t.active = s.active
  held : t.held = s.held

/-- Carries out commands of user code, starts and stops sequences by their names, and in between
leaves the sequences, the names and the active list alone. -/
inductive Works (run : Runner) : Stage → Stage → Prop
  | refl (s : Stage) : Works run s s
  | own {s t u : Stage} : Works run s t → t.SameCast u → Works run s u
  | command {s t : Stage} (c : Command) : Works run s t → Works run s (run c t).2
  | start {s t : Stage} (target : String) :
      Works run s t → Works run s (Conductor.start run target t).2
  | stop {s t : Stage} (target : String) :
      Works run s t → Works run s (Conductor.stop run target t).2

def Works.likeness (run : Runner) (s : Stage) : Likeness :=
  .plain (fun t u => u = t ∧ Works run s t)
    (fun h => by rw [h.1]; exact ⟨rfl, rfl, rfl⟩)
    (fun h _ => by rw [h.1])
    (fun h _ => by rw [h.1])
    (fun _ h => ⟨by rw [h.1], h.2.own ⟨rfl, rfl, rfl, rfl⟩⟩)
    (fun _ h => ⟨by rw [h.1], h.2.own ⟨rfl, rfl, rfl, rfl⟩⟩)
    (fun _ h => ⟨by rw [h.1], h.2.own ⟨rfl, rfl, rfl, rfl⟩⟩)

theorem Works.alike (run : Runner) (s : Stage) :
    Runner.Alike (Works.likeness run s) run run where
  command c := by
    rintro t _ ⟨rfl, hw⟩
    exact ⟨rfl, rfl, hw.command c⟩
  start target := by
    rintro t _ ⟨rfl, hw⟩
    exact ⟨rfl, rfl, hw.start target⟩
  stop target := by
    rintro t _ ⟨rfl, hw⟩
    exact ⟨rfl, rfl, hw.stop target⟩

namespace Conductor

variable {run : Runner} {name : String} {s t : Stage}

/-- All that a turn does to sequences while it calls a step is done by the user code in the step,
and by the starts and the stops that the step is made of. -/
theorem playPart_works (run : Runner) (dt : Float32) (id : Nat) (q : Sequence) (part : Part)
    (p : part.step.Progress) (s : Stage) : Works run s (playPart run dt id q part (p, s)).2.2 := by
  let cue : Cue := { owner := q.name, site := .top id q.current }
  have halike : part.step.Alike (Works.likeness run s) run run q.name :=
    Step.alike_of (Works.alike run s) part.step
  have hnote : ∀ (n : Notice) (t u : Stage), (Works.likeness run s).related t u →
      (Works.likeness run s).related (t.note (.notice n)) (u.note (.notice n)) :=
    fun n t u ⟨h, hw⟩ => ⟨by rw [h], hw.own ⟨rfl, rfl, rfl, rfl⟩⟩
  have hplay : Play.Alike (Works.likeness run s) (playPart run dt id q part)
      (playPart run dt id q part) :=
    Cue.drive_alike (L := Works.likeness run s) (c := cue) trivial (hnote _)
      (fun status => hnote _) (Step.enter_alike part.step cue trivial halike)
      (Step.tick_alike part.step cue trivial rfl halike) (Step.exit_alike part.step cue halike)
  exact (hplay p s s ⟨rfl, .refl s⟩).2.2.2

/-- A removal takes the name away, ends the run if there is one, and takes the number off the
active list when the callback has returned. -/
theorem remove_parts (hrun : run.Follows) (h : remove run name s = (.ok true, t)) :
    ∃ id u, s.find? name = some id ∧ t = (u.delist id).note (.notice (.removed name)) ∧
      ((s.sequence id).running = false ∧ u = s.unregister name ∨
        (s.sequence id).running = true ∧
          ∃ n, Leads Nowhere true ((s.unregister name).ending id .stopped n) u) := by
  cases hid : s.find? name with
  | none =>
    simp only [remove, Act.bind_apply, Act.read, hid] at h
    exact absurd (Except.ok.inj (congrArg Prod.fst h)) Bool.false_ne_true
  | some id =>
    simp only [remove, Act.bind_apply, Act.read, hid, Act.change] at h
    by_cases hr : (s.sequence id).running = true
    · have hb := breakOff_leads Nowhere hrun (s := s.unregister name) hr
      rcases hu : breakOff run id (s.unregister name) with ⟨e | stopped, u⟩ <;> rw [hu] at h hb
      · exact absurd (congrArg Prod.fst h) (by simp)
      · exact ⟨id, u, rfl, (congrArg Prod.snd h).symm, .inr ⟨hr, _, hb⟩⟩
    · have hr : (s.sequence id).running = false := by simpa using hr
      rw [breakOff_idle run (s := s.unregister name) hr] at h
      exact ⟨id, _, rfl, (congrArg Prod.snd h).symm, .inl ⟨hr, rfl⟩⟩

/-- A sequence that was removed is idle, has no name, and is not in the active list. -/
theorem remove_retires (hrun : run.Follows) (hs : s.Sound)
    (h : remove run name s = (.ok true, t)) :
    ∃ id, s.find? name = some id ∧ t.Retired id ∧ id ∉ t.active := by
  obtain ⟨id, u, hid, rfl, hu⟩ := remove_parts hrun h
  obtain ⟨hlt, hname⟩ := hs.named _ _ hid
  have hgone : ¬ (s.unregister name).Registered id := by
    rintro ⟨n, hf⟩
    have hn : n = name := (hs.named _ _ (s.find?_of_unregister hf)).2.symm.trans hname
    rw [Stage.find?_unregister, if_pos hn] at hf
    exact absurd hf (by simp)
  have hretired : u.Retired id := by
    rcases hu with ⟨hr, rfl⟩ | ⟨-, n, hl⟩
    · exact ⟨hlt, hgone, hr⟩
    · have hend : ((s.unregister name).ending id .stopped n).Retired id :=
        ⟨by simpa [Stage.ending, Stage.notify] using hlt, hgone,
          (s.unregister name).running_ending_self hlt _ n⟩
      exact hend.rests (hl.course.rests hend)
  refine ⟨id, hid, ⟨hretired.lt, hretired.unregistered, hretired.idle⟩, fun hmem => ?_⟩
  exact ((u.mem_active_delist id id).mp hmem).2 rfl

/-- A turn that comes to a retired sequence only notes how it found it. -/
theorem takeTurn_retired (run : Runner) (dt : Float32) {id : Nat} (hr : s.Retired id)
    (ha : id ∉ s.active) : ∃ τ, (τ = .paused ∨ τ = .idle) ∧
      takeTurn run dt id s = (.ok (), s.note (.turn id τ)) := by
  by_cases hp : (s.sequence id).paused = true
  · exact ⟨.paused, .inl rfl, takeTurn_paused hp⟩
  · have hp : (s.sequence id).paused = false := by simpa using hp
    have hsame := (s.note (.turn id .idle)).delist_of_not_mem ha
    refine ⟨.idle, .inr rfl, ?_⟩
    rw [takeTurn_unpaused hp, turn_idle hr.idle]
    simp [Stage.sweep, hr.idle, hsame]

end Conductor

/-- Whoever removes a sequence, and whatever is under way when the removal returns: the sequence is
idle, no name means it and it is not in the active list, then and at every later moment. No command
begins another operation on it, a turn that comes to it does nothing, and nothing more is told of
it; its steps are called only by a turn that was under way. What the operations under way still do
when user code returns to them they do to the number of the sequence, so a sequence that was
registered under the name meanwhile keeps its cursor, its flags, its steps and its place in the
active list, unless user code itself changes them. -/
theorem removal_is_final {m : Moment} (h : m.Reached) {run : Runner}
    (callbacks : ∀ c u, Session (run c u).1.isOk u (run c u).2) {name : String} {t : Stage}
    (hr : Conductor.remove run name m.stage = (.ok true, t)) :
    ∃ id, m.stage.find? name = some id ∧ t.Retired id ∧ id ∉ t.active ∧
      (∀ k, Moment.Before ⟨m.pending, t⟩ k →
        k.stage.Retired id ∧ id ∉ k.stage.active ∧
        (∀ e ∈ k.pending, e.id = id → e ∈ m.pending) ∧
        (∃ l, k.stage.journal = l ++ t.journal ∧ ∀ e ∈ l, e.Rests (underway m.pending id) id) ∧
        (∀ run' dt, ∃ τ, (τ = .paused ∨ τ = .idle) ∧
          Conductor.takeTurn run' dt id k.stage = (.ok (), k.stage.note (.turn id τ))) ∧
        ∀ e ∈ k.pending, e.id = id → ∀ u, e.Ends k.stage u →
          Stage.Confined id k.stage u ∧ u.active = k.stage.active) ∧
      (∀ e : Errand, e.id = id → ∀ u v, e.Ends u v → Stage.Confined id u v) ∧
      ∀ q part, .driving id q part ∈ m.pending → ∀ dt p u,
        Works run u (Conductor.playPart run dt id q part (p, u)).2.2 := by
  have hrun : run.Follows := fun c u => (callbacks c u).leads
  obtain ⟨id, hid, hretired, hactive⟩ :=
    Conductor.remove_retires hrun h.kept.chronicled.sound hr
  refine ⟨id, hid, hretired, hactive, fun k hk => ?_, fun e he u v hends => ?_,
    fun q part _ dt p u => Conductor.playPart_works run dt id q part p u⟩
  · obtain ⟨hst, hpending⟩ := hk.rests hretired
    have hk' := hretired.rests hst
    have hka : id ∉ k.stage.active := fun hmem => hactive (hst.active hmem)
    refine ⟨hk', hka, hpending, hst.journal,
      fun run' dt => Conductor.takeTurn_retired run' dt hk' hka, ?_⟩
    intro e he heq u hends
    have hc := hends.confined
    rw [heq] at hc
    have hu : Stage.Rests Nowhere id k.stage u := hends.rests
    exact ⟨hc, hc.active_eq hka fun hmem => hka (hu.active hmem)⟩
  · rw [← he]
    exact hends.confined

/-- A step that removes its own sequence, registers another under the name and starts it: when the
turn of the old one ends, the new one runs on in its place in the active list. -/
theorem removal_is_final_replaced :
    let b : Outline Command := { name := "a", steps := [.wait 1] }
    let a : Outline Command :=
      { name := "a", steps := [.call [.remove "a", .register b, .start "a"]] }
    let s := ((Stage.opening {} {}).run false [.register a, .start "a"]).2
    let t := (Conductor.remove (perform 1) "a" (s.lending 0)).2
    let u := (dispatch (perform 1) (.start "a") (dispatch (perform 1) (.register b) t).2).2
    ∃ part, Moment.Reached ⟨[.driving 0 (s.sequence 0) part], u⟩ ∧ u.find? "a" = some 1 ∧
      ∀ p status, let v := (u.afterPlay 0 (s.sequence 0) ⟨part.step, p⟩ (.ok status)).sweep 0
        v.Retired 0 ∧ v.sequence 1 = u.sequence 1 ∧ (v.sequence 1).running = true ∧
          v.active = [1] := by
  intro b a s t u
  have hs : Moment.Reached ⟨[], s⟩ := .of_session (Session.run false _ (.opening {} {}))
  have hrun : (perform 1).Follows := fun c u => (Session.perform 1 c u).leads
  obtain ⟨part, hlent⟩ := hs.lent 0 ⟨by decide, by decide⟩ (by decide) (by decide)
  have hok : (Conductor.remove (perform 1) "a" (s.lending 0)).1 = .ok true := by rfl
  have hr : Conductor.remove (perform 1) "a" (s.lending 0) = (.ok true, t) := Prod.ext hok rfl
  have hfind : (s.lending 0).find? "a" = some 0 := by decide
  have hnew : u.find? "a" = some 1 := by decide +kernel
  have hrunning : (u.sequence 1).running = true := by decide +kernel
  have hactive : u.active = [1] := by decide +kernel
  have hu : Moment.Before ⟨[.driving 0 (s.sequence 0) part], t⟩
      ⟨[.driving 0 (s.sequence 0) part], u⟩ :=
    (Moment.Before.refl.step (.course (dispatch_follows hrun (.register b) t))).step
      (.course (dispatch_follows hrun (.start "a") _))
  have ht : Moment.Reached ⟨[.driving 0 (s.sequence 0) part], t⟩ :=
    hlent.step (.course (Conductor.remove_follows hrun "a" (s.lending 0)))
  clear_value u t
  obtain ⟨id, hid, hretired, -, hlater, -⟩ := removal_is_final hlent (Session.perform 1) hr
  obtain rfl : 0 = id := Option.some.inj (hfind.symm.trans hid)
  refine ⟨part, ht.later hu, hnew, fun p status => ?_⟩
  have hend : Errand.Ends (.driving 0 (s.sequence 0) part) u _ := .driven u 0 _ part p status
  obtain ⟨-, -, -, -, -, hends⟩ := hlater _ hu
  obtain ⟨hc, ha⟩ := hends _ List.mem_cons_self rfl _ hend
  obtain ⟨hv, -⟩ := hlater _ (hu.step (.ends hend))
  have hsame := hc.others 1 (by decide)
  exact ⟨hv, hsame, by rw [hsame, hrunning], ha.trans hactive⟩

end Sequencer
