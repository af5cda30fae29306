import Sequencer.Proofs.ActiveList
import Sequencer.Proofs.Course.Drive

/-!
# What a frame sweeps out

A callback that panics when it is told of an end leaves its sequence idle and in the active list. A
frame that comes to its end takes such a sequence off the list in its turn, unless the sequence is
paused then: a paused one is passed over before anybody looks whether it runs.
-/

set_option autoImplicit false

namespace Sequencer

open Site (Nowhere)

def Stage.ListsRunning (X : Nat → Prop) (s : Stage) : Prop :=
  ∀ id ∈ s.active, (s.sequence id).running = true ∨ X id

namespace Stage.ListsRunning

variable {X Y : Nat → Prop} {s t : Stage} {id : Nat}

theorem mono (h : s.ListsRunning X) (hX : ∀ i, X i → Y i) : s.ListsRunning Y :=
  fun i hi => (h i hi).imp_right (hX i)

theorem of_same (h : s.ListsRunning X) (ha : t.active = s.active)
    (hq : ∀ i, (t.sequence i).running = (s.sequence i).running) : t.ListsRunning X := by
  intro i hi
  rw [ha] at hi
  rw [hq]
  exact h i hi

theorem modify (h : s.ListsRunning X) (id : Nat) {f : Sequence → Sequence}
    (hf : ∀ q, (f q).running = q.running) : (s.modify id f).ListsRunning X :=
  h.of_same rfl fun i => s.field_modify (·.running) hf id i

/-- The end of a run leaves the sequence in the list. -/
theorem ending (h : s.ListsRunning X) (id : Nat) (hook : Hook) (n : Notice) :
    (s.ending id hook n).ListsRunning (Also X id) := by
  intro i hi
  by_cases hne : i = id
  · exact .inr (.inr hne)
  · rw [Stage.ending, Stage.sequence_notify, Stage.sequence_note, s.sequence_modify_ne _ hne]
    exact (h i hi).imp_right .inl

/-- Only a sequence that was set running joins the list. -/
theorem enlist (h : s.ListsRunning X) (ha : t.active = s.active)
    (hrun : (t.sequence id).running = true)
    (hq : ∀ i, i ≠ id → (t.sequence i).running = (s.sequence i).running) :
    (t.enlist id).ListsRunning X := by
  intro i hi
  rw [Stage.sequence_enlist]
  by_cases hne : i = id
  · rw [hne]
    exact .inl hrun
  · rw [hq i hne]
    rw [t.mem_active_enlist id i, ha] at hi
    exact h i (hi.resolve_left hne)

theorem delist (h : s.ListsRunning (Also X id)) : (s.delist id).ListsRunning X := by
  intro i hi
  obtain ⟨hi, hne⟩ := (s.mem_active_delist id i).mp hi
  exact (h i hi).imp_right fun hX => hX.resolve_right hne

theorem sweep (h : s.ListsRunning (Also X id)) : (s.sweep id).ListsRunning X := by
  unfold Stage.sweep
  split
  · next hr =>
    intro i hi
    rcases h i hi with hi | hX | rfl
    · exact .inl hi
    · exact .inr hX
    · exact .inl hr
  · exact h.delist

theorem enroll (h : s.ListsRunning X) {q : Sequence} (hq : q.running = false) :
    (s.enroll q).ListsRunning X := by
  refine h.of_same (s.active_enroll q) fun i => ?_
  rw [Stage.sequence_enroll]
  split
  · next hi => rw [hq, s.sequence_of_length_le (by omega)]
  · rfl

theorem afterPlay (h : s.ListsRunning X) (id : Nat) (q : Sequence) (part : Part)
    (r : Except Halt Status) : (s.afterPlay id q part r).ListsRunning X :=
  h.of_same (s.active_afterPlay id q part r) (s.running_afterPlay id q part r)

end Stage.ListsRunning

/-- A calm course brings nobody into the list who does not run, whoever was in it before. -/
theorem Leads.listsRunning {own : Site → Prop} {calm : Bool} {s t : Stage}
    (h : Leads own calm s t) (hcalm : calm = true) (hs : s.Sound) {X : Nat → Prop}
    (hX : s.ListsRunning X) : t.ListsRunning X := by
  induction h generalizing X with
  | aside h => exact hX.of_same h.active fun i => by rw [h.sequence]
  | halt _ _ => exact absurd hcalm (by simp)
  | trans h _ ih ih' =>
    obtain ⟨hc, hc'⟩ := (Bool.and_eq_true _ _).mp hcalm
    exact ih' hc' (h.lasts hs).1 (ih hc hs hX)
  | widen _ _ ih => exact ih hcalm hs hX
  | called s c _ => exact hX
  | returned s r _ => exact hX
  | held s h _ => exact hX
  | registered resolve o _ => exact hX.enroll rfl
  | @registeredHeld own s slot q hq _ =>
    obtain ⟨resolve, o, rfl⟩ := hs.held slot q hq
    exact Stage.ListsRunning.enroll (s := { s with held := s.held.erase slot }) hX rfl
  | checked s id => exact hX.modify id fun _ => rfl
  | paused s id f => exact hX.modify id fun _ => rfl
  | @started own s name id n hn _ =>
    have hid := (hs.named _ _ hn).1
    refine Stage.ListsRunning.enlist hX rfl ?_ fun i hi => ?_
    · simp [s.sequence_modify_self _ hid, Sequence.begun, Sequence.rewound]
    · simp [s.sequence_modify_ne _ hi]
  | @reset own s name id _ => exact hX.modify id fun _ => rfl
  | @restored own s name id index hn =>
    have hid := (hs.named _ _ hn).1
    refine Stage.ListsRunning.enlist hX rfl ?_ fun i hi => ?_
    · simp [s.sequence_modify_self _ hid, Sequence.resumed]
    · simp [s.sequence_modify_ne _ hi]
  | @stoppedIdle own s name id _ _ =>
    exact Stage.ListsRunning.delist (s := s.note _) (hX.mono fun _ => .inl)
  | @stopped own calm s t name id n _ _ _ ih =>
    subst hcalm
    exact Stage.ListsRunning.delist (s := t.note _)
      (ih rfl (hs.ending id _ n) (hX.ending id .stopped n))
  | @removedIdle own s name id _ _ =>
    exact Stage.ListsRunning.delist (s := s.unregister name) (hX.mono fun _ => .inl)
  | @removed own calm s t name id n _ _ _ ih =>
    subst hcalm
    exact (ih rfl ((hs.unregister name).ending id _ n)
      (Stage.ListsRunning.ending (s := s.unregister name) hX id .stopped n)).delist
  | passed _ => exact hX
  | @idle own s id _ _ =>
    exact Stage.ListsRunning.sweep (s := s.note (.turn id .idle)) (hX.mono fun _ => .inl)
  | @completed own calm s t id n _ _ _ ih =>
    subst hcalm
    exact (ih rfl ((hs.note _).ending id _ n)
      (Stage.ListsRunning.ending (s := s.note (.turn id .completed)) hX id .completed n)).sweep
  | @busy own s id _ _ _ =>
    exact Stage.ListsRunning.sweep (s := s.note (.turn id .busy)) (hX.mono fun _ => .inl)
  | @driven own s t id part run dt r p _ _ _ _ _ _ _ ih =>
    have hl : (s.lending id).ListsRunning X := by
      have hentered := Stage.ListsRunning.modify (s := s.note (.turn id .driven))
        (f := fun q => { q with entered := true }) hX id fun _ => rfl
      exact hentered.modify id fun _ => rfl
    have ht := (ih hcalm (hs.lending id) hl).afterPlay id (s.sequence id) ⟨part.step, p⟩ r
    rw [if_pos hcalm]
    exact Stage.ListsRunning.sweep (ht.mono fun _ => .inl)

namespace Conductor

variable {run : Runner} {dt : Float32} {id : Nat} {s t u v : Stage}

/-- Whoever is not paused in its turn and does not run after it is off the list. -/
theorem takeTurn_sweeps (hp : (u.sequence id).paused = false)
    (h : takeTurn run dt id u = (.ok (), v)) (hid : id ∈ v.active) :
    (v.sequence id).running = true := by
  rw [takeTurn_unpaused hp] at h
  rcases hw : turn run dt id u with ⟨e | a, w⟩ <;> rw [hw] at h
  · exact absurd (congrArg Prod.fst h) (by simp)
  · obtain rfl : w.sweep id = v := congrArg Prod.snd h
    rw [Stage.sequence_sweep]
    unfold Stage.sweep at hid
    split at hid
    · assumption
    · exact absurd rfl ((w.mem_active_delist id id).mp hid).2

/-- The turn of an idle sequence, in a frame that comes to its end and leaves it in the list. -/
theorem takeTurns_overlooks (hrun : run.Follows) (hs : s.Sound) {l : List Nat} (hid : id ∈ l)
    (h : takeTurns run dt l s = (.ok (), t)) (hlisted : id ∈ t.active)
    (hidle : (t.sequence id).running = false) : .turn id .paused ∈ s.newEntries t := by
  obtain ⟨u, v, hu, hv, hvt⟩ := takeTurns_reaches hrun hid h
  have hus := (hu.lasts hs).1
  have hvl := takeTurn_leads hrun hv
  have hvs := (hvl.lasts hus).1
  have hp : (u.sequence id).paused = true := by
    refine Classical.byContradiction fun hp => ?_
    have hp : (u.sequence id).paused = false := by simpa using hp
    -- from the turn on the list is right about this sequence
    have hright : v.ListsRunning (· ≠ id) := by
      intro i hi
      by_cases hne : i = id
      · subst hne
        exact .inl (takeTurn_sweeps hp hv hi)
      · exact .inr hne
    rcases hvt.listsRunning rfl hvs hright id hlisted with hr | hne
    · rw [hidle] at hr
      exact absurd hr (by simp)
    · exact hne rfl
  obtain ⟨l₁, hl₁, -⟩ := (hu.lasts hs).2.journal
  obtain ⟨l₂, hl₂, -⟩ := (hvt.lasts hvs).2.journal
  rw [takeTurn_paused hp] at hv
  obtain rfl : u.note (.turn id .paused) = v := congrArg Prod.snd hv
  have hj : t.journal = (l₂ ++ .turn id .paused :: l₁) ++ s.journal := by
    rw [hl₂, show (u.note (.turn id .paused)).journal = .turn id .paused :: u.journal from rfl, hl₁]
    simp
  rw [Stage.newEntries_of_append hj]
  simp

end Conductor

/-- Whatever has panicked before: a frame that comes to its end leaves in the active list the
sequences that run, and of those that were idle in it already only such as were paused when their
turn came. If no idle member of the list was passed over as paused in the frame, everybody the list
counts runs. -/
theorem frame_sweeps {calm : Bool} {settings : Settings} {host : Host} {s t : Stage}
    (h : Session calm (.opening settings host) s) {run : Runner} {dt : Float32}
    (callbacks : ∀ c u, Session (run c u).1.isOk u (run c u).2)
    (ht : Conductor.tick run dt s = (.ok (), t)) :
    (∀ id ∈ t.active, (t.sequence id).running = true ∨
      id ∈ s.active ∧ (s.sequence id).running = false ∧ .turn id .paused ∈ s.newEntries t) ∧
    ((∀ id ∈ s.active, (s.sequence id).running = false → .turn id .paused ∉ s.newEntries t) →
      t.active.filter (fun id => (t.sequence id).running) = t.active) := by
  have hrun : run.Follows := fun c u => (callbacks c u).leads
  have hframe : Leads Nowhere true s t := by
    have hl : Leads Nowhere _ s _ := Conductor.tick_follows hrun dt s
    rwa [ht] at hl
  have hstart : s.ListsRunning fun id => id ∈ s.active ∧ (s.sequence id).running = false := by
    intro id hid
    by_cases hr : (s.sequence id).running = true
    · exact .inl hr
    · exact .inr ⟨hid, by simpa using hr⟩
  have hleft : ∀ id ∈ t.active, (t.sequence id).running = true ∨
      id ∈ s.active ∧ (s.sequence id).running = false ∧ .turn id .paused ∈ s.newEntries t := by
    intro id hid
    cases hr : (t.sequence id).running with
    | true => exact .inl rfl
    | false =>
      rcases hframe.listsRunning rfl h.sound hstart id hid with hr' | ⟨hlisted, hidle⟩
      · rw [hr] at hr'
        exact absurd hr' (by simp)
      · exact .inr ⟨hlisted, hidle, Conductor.takeTurns_overlooks hrun h.sound hlisted ht hid hr⟩
  refine ⟨hleft, fun hnone => List.filter_eq_self.mpr fun id hid => ?_⟩
  rcases hleft id hid with hr | ⟨hlisted, hidle, hpassed⟩
  · exact hr
  · exact absurd hpassed (hnone id hlisted hidle)

def Entry.passesOver : Entry → Bool
  | .turn _ τ => τ == .paused
  | _ => false

/-- A callback that panics out of a frame when it is told of a completion; the next frame takes its
sequence off the list. -/
theorem frame_sweeps_completed :
    let a : Outline Command :=
      { name := "a", steps := [.call []], onCompleted := some [.panic "p"] }
    let l : List Command := [.register a, .start "a", .tick 1 none, .tick 1 none]
    let s := ((Stage.opening {} {}).run false l).2
    let t := (Conductor.tick (perform 1) 1 s).2
    (Stage.opening {} {}).calmly l = false ∧ s.active = [0] ∧ (s.sequence 0).running = false ∧
      t.active.filter (fun id => (t.sequence id).running) = t.active := by
  intro a l s t
  have h : Session _ (.opening {} {}) s := Session.run false l (.opening {} {})
  have hok : (Conductor.tick (perform 1) 1 s).1.isOk = true := by decide +kernel
  have ht : Conductor.tick (perform 1) 1 s = (.ok (), t) := Act.eq_of_isOk hok
  have hnone : (s.newEntries t).any Entry.passesOver = false := by decide +kernel
  refine ⟨by decide +kernel, by decide +kernel, by decide +kernel, ?_⟩
  refine (frame_sweeps h (Session.perform 1) ht).2 fun id _ _ hpassed => ?_
  exact List.any_eq_false.mp hnone _ hpassed rfl

/-- A sequence is removed while it is paused, and its callback panics: idle and no longer registered,
it stays in the list in every frame from then on. -/
theorem removed_while_paused_stays_listed :
    let a : Outline Command := { name := "a", steps := [.wait 5], onStopped := some [.panic "p"] }
    let l : List Command := [.register a, .start "a", .pause "a", .remove "a"]
    let s := ((Stage.opening {} {}).run false l).2
    let t := (Conductor.tick (perform 1) 1 s).2
    Session ((Stage.opening {} {}).calmly l) (.opening {} {}) s ∧
      (Conductor.tick (perform 1) 1 s).1.isOk = true ∧
      t.active = [0] ∧ (t.sequence 0).running = false ∧ t.registry.keys = [] := by
  intro a l s t
  exact ⟨Session.run false l (.opening {} {}), by decide +kernel, by decide +kernel,
    by decide +kernel, by decide +kernel⟩

end Sequencer
