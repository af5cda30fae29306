import Sequencer.Proofs.Moments

/-!
# Turns of a sequence that is ticking

A step may ask for a frame while it is being called, and in that frame its own sequence has a turn
too. The turn looks at the state the step has left the sequence in before it looks whether the
sequence is ticking, so it leaves the sequence alone unless the step has just put the cursor past
the end.
-/

set_option autoImplicit false

namespace Sequencer

/-- Whatever last moved the cursor, since the sequence was driven, was a restore past the last
step. -/
def Stage.PutPastEnd (s : Stage) (id : Nat) : Prop :=
  ∃ l i c j, s.journal = l ++ .moved id (.restored i) c :: j ∧
    (∀ e ∈ l, e ≠ .turn id .driven ∧ ¬ e.Moves id) ∧ (s.sequence id).stepCount ≤ i

/-- The cursor is where the last move has put it, or where it was if there was none. -/
theorem Record.current_replay (id : Nat) (l : List Entry) (r : Record) :
    ((∀ e ∈ l, ¬ e.Moves id) ∧ (replay id l r).current = r.current) ∨
      ∃ l₁ m c l₂, l = l₁ ++ .moved id m c :: l₂ ∧ (∀ e ∈ l₁, ¬ e.Moves id) ∧
        (replay id l r).current = c := by
  induction l with
  | nil => exact .inl ⟨by simp, rfl⟩
  | cons e l ih =>
    by_cases he : e.Moves id
    · cases e with
      | moved i m c =>
        obtain rfl : i = id := he
        exact .inr ⟨[], m, c, l, rfl, by simp, by cases m <;> simp [after]⟩
      | _ => exact absurd he (by simp [Entry.Moves])
    · have hc : (replay id (e :: l) r).current = (replay id l r).current := (after_unmoved he _).1
      rw [hc]
      rcases ih with ⟨hl, hr⟩ | ⟨l₁, m, c, l₂, rfl, hl, hr⟩
      · exact .inl ⟨fun e' he' => (List.mem_cons.mp he').elim (fun h => h ▸ he) (hl e'), hr⟩
      · exact .inr ⟨e :: l₁, m, c, l₂, rfl,
          fun e' he' => (List.mem_cons.mp he').elim (fun h => h ▸ he) (hl e'), hr⟩

/-- While its step is being called, a sequence is past its last step only if it was put there. -/
theorem Stage.OnLoan.past_end {s : Stage} {id : Nat} {q : Sequence} (h : s.OnLoan id q)
    (hs : s.Chronicled) :
    (s.sequence id).stepCount ≤ (s.sequence id).current ↔ s.PutPastEnd id := by
  obtain ⟨l, j, hj, hl, hcursor⟩ := h.since
  have hrecord : (s.sequence id).current =
      (Record.replay id (l ++ .turn id .driven :: j) {}).current := by
    rw [← hj, ← hs.tracked id]
    rfl
  have hdriven : (Record.replay id (.turn id .driven :: j) {}).current = q.current := by
    rw [← hcursor]
    simp [Record.after]
  constructor
  · intro hc
    rw [Record.replay_append] at hrecord
    rcases Record.current_replay id l (Record.replay id (.turn id .driven :: j) {}) with
      ⟨-, hr⟩ | ⟨l₁, m, c, l₂, rfl, hl₁, hr⟩
    · have hlt := h.cursor
      omega
    · have hmem : Entry.moved id m c ∈ s.journal := by
        rw [hj]
        simp
      have hplaced := hs.placed _ hmem
      have hspares := hl (.moved id m c) (by simp)
      have hlt := h.cursor
      cases m with
      | started =>
        have hc0 : c = 0 := hplaced
        omega
      | reset =>
        have hc0 : c = 0 := hplaced
        omega
      | settled => exact absurd rfl hspares
      | restored i =>
        obtain ⟨-, hmin⟩ := hplaced
        refine ⟨l₁, i, c, l₂ ++ .turn id .driven :: j, by rw [hj]; simp, fun e he => ?_, by omega⟩
        exact ⟨(hl e (List.mem_append_left _ he)).ne_driven, hl₁ e he⟩
  · rintro ⟨l', i, c, j', hj', hl', hi⟩
    have hmem : Entry.moved id (.restored i) c ∈ s.journal := by
      rw [hj']
      simp
    obtain ⟨-, hmin⟩ := hs.placed _ hmem
    have hcur : (s.sequence id).current = c := by
      rw [hrecord, ← hj, hj', Record.replay_append]
      rcases Record.current_replay id l' (Record.replay id (.moved id (.restored i) c :: j') {})
        with ⟨-, hr⟩ | ⟨l₁, m, c', l₂, rfl, -, -⟩
      · rw [hr]
        simp [Record.after]
      · exact absurd rfl (hl' (.moved id m c') (by simp)).2
    omega

namespace Conductor

variable {run : Runner} {dt : Float32} {id : Nat} {s : Stage}

/-- A turn that finds its sequence ticking, and not past the end, notes how it found it. -/
theorem takeTurn_ticking (hb : (s.sequence id).ticking = true)
    (hc : ¬ (s.Due id ∧ (s.sequence id).stepCount ≤ (s.sequence id).current)) :
    ∃ t τ l, takeTurn run dt id s = (.ok (), t) ∧ t.sequences = s.sequences ∧
      t.registry = s.registry ∧ t.barriers = s.barriers ∧ t.host = s.host ∧ t.held = s.held ∧
      (τ = .paused ∨ τ = .idle ∨ τ = .busy) ∧ t.journal = l ++ .turn id τ :: s.journal ∧
      ∀ e ∈ l, e = .notice (.alreadyTicking (s.sequence id).name) := by
  by_cases hp : (s.sequence id).paused = true
  · exact ⟨_, .paused, [], takeTurn_paused hp, rfl, rfl, rfl, rfl, rfl, .inl rfl, rfl, by simp⟩
  have hp : (s.sequence id).paused = false := by simpa using hp
  by_cases hr : (s.sequence id).running = true
  · have hcursor : (s.sequence id).current < (s.sequence id).stepCount :=
      Nat.lt_of_not_le fun hle => hc ⟨⟨hp, hr⟩, hle⟩
    let t := (s.note (.turn id .busy)).note (.notice (.alreadyTicking (s.sequence id).name))
    have ht : takeTurn run dt id s = (.ok (), t) := by
      rw [takeTurn_unpaused hp, turn_busy hr hcursor hb]
      exact congrArg (Prod.mk _) (sweep_running (s := t) hr)
    exact ⟨t, .busy, [_], ht, rfl, rfl, rfl, rfl, rfl, .inr (.inr rfl), rfl, by simp⟩
  · have hr : (s.sequence id).running = false := by simpa using hr
    have ht : takeTurn run dt id s = (.ok (), (s.note (.turn id .idle)).delist id) := by
      rw [takeTurn_unpaused hp, turn_idle hr]
      simp [Stage.sweep, hr]
    exact ⟨_, .idle, [], ht, rfl, rfl, rfl, rfl, rfl, .inr (.inl rfl), rfl, by simp⟩

/-- A turn that finds no step left tells the end of the run, whether or not the sequence ticks. -/
theorem takeTurn_past_end (hrun : run.Follows) (hd : s.Due id)
    (hc : (s.sequence id).stepCount ≤ (s.sequence id).current) :
    ∃ l name b n, (takeTurn run dt id s).2.journal =
      l ++ .notified id name .completed b :: .notice n :: .turn id .completed :: s.journal := by
  have hsweep : (takeTurn run dt id s).2.journal =
      (finish run id (s.note (.turn id .completed))).2.journal := by
    rw [takeTurn_unpaused hd.unpaused, turn_completed hd.running hc]
    rcases finish run id (s.note (.turn id .completed)) with ⟨e | a, t⟩
    · rfl
    · exact t.journal_sweep id
  obtain ⟨l, hl⟩ :=
    (finish_leads Site.Nowhere hrun id (s.note (.turn id .completed))).course.grows
  exact ⟨l, _, _, _, by rw [hsweep, hl]; rfl⟩

end Conductor

/-- While a step of a sequence is being called, the turn that a nested frame gives to the sequence
changes nothing of it, nor of any other sequence, and calls nobody: it passes over a sequence that
is paused or does not run, and says of any other that it is ticking. The exception is a sequence
that the step has restored past its last step, running and not paused: the completion is tested
for first, so the turn ends the run and tells `on_completed` while the step is still being
called. -/
theorem nested_turn_exact {m : Moment} (h : m.Reached) {id : Nat} {q : Sequence} {part : Part}
    (hp : .driving id q part ∈ m.pending) (run : Runner)
    (callbacks : ∀ c u, Session (run c u).1.isOk u (run c u).2) (dt : Float32) :
    (¬ (m.stage.Due id ∧ m.stage.PutPastEnd id) →
      ∃ t τ l, Conductor.takeTurn run dt id m.stage = (.ok (), t) ∧
        t.sequences = m.stage.sequences ∧ t.registry = m.stage.registry ∧
        t.barriers = m.stage.barriers ∧ t.host = m.stage.host ∧ t.held = m.stage.held ∧
        (τ = .paused ∨ τ = .idle ∨ τ = .busy) ∧
        t.journal = l ++ .turn id τ :: m.stage.journal ∧
        ∀ e ∈ l, e = .notice (.alreadyTicking (m.stage.sequence id).name)) ∧
    (m.stage.Due id ∧ m.stage.PutPastEnd id →
      ∃ l name b n, (Conductor.takeTurn run dt id m.stage).2.journal =
        l ++ .notified id name .completed b :: .notice n :: .turn id .completed ::
          m.stage.journal) := by
  have hkept := h.kept
  have hlent := hkept.lent id q part hp
  have hpast := hlent.past_end hkept.chronicled
  constructor
  · intro hc
    rw [← hpast] at hc
    exact Conductor.takeTurn_ticking hlent.ticking hc
  · rintro ⟨hd, hc⟩
    exact Conductor.takeTurn_past_end (fun c u => (callbacks c u).leads) hd (hpast.mpr hc)

/-- A step that has stopped its own sequence and started it again, and then asks for a frame. -/
theorem nested_turn_exact_restarted :
    let a : Outline Command := { name := "a", steps := [.call [.stop "a", .start "a"], .call []] }
    let s := ((Stage.opening {} {}).run false [.register a, .start "a"]).2
    let t := (dispatch (perform 1) (.start "a")
      (dispatch (perform 1) (.stop "a") (s.lending 0)).2).2
    ∃ part, Moment.Reached ⟨[.driving 0 (s.sequence 0) part], t⟩ ∧ (t.sequence 0).running = true ∧
      ∃ u, Conductor.takeTurn (perform 1) 1 0 t = (.ok (), u) ∧ u.sequences = t.sequences := by
  intro a s t
  have hs : Moment.Reached ⟨[], s⟩ := .of_session (Session.run false _ (.opening {} {}))
  have hrun : (perform 1).Follows := fun c u => (Session.perform 1 c u).leads
  obtain ⟨part, hlent⟩ := hs.lent 0 ⟨by decide, by decide⟩ (by decide) (by decide)
  have ht : Moment.Reached ⟨[.driving 0 (s.sequence 0) part], t⟩ :=
    (hlent.command hrun (.stop "a")).command hrun (.start "a")
  have hcursor : ¬ (t.sequence 0).stepCount ≤ (t.sequence 0).current := by decide +kernel
  have hr : (t.sequence 0).running = true := by decide +kernel
  refine ⟨part, ht, hr, ?_⟩
  clear_value t
  have hpast := (ht.kept.lent 0 _ part List.mem_cons_self).past_end ht.kept.chronicled
  obtain ⟨u, -, -, hu, hsame, -⟩ := (nested_turn_exact ht List.mem_cons_self (perform 1)
    (Session.perform 1) 1).1 fun hc => hcursor (hpast.mpr hc.2)
  exact ⟨u, hu, hsame⟩

/-- A step that restores its own sequence past the end and then asks for a frame: the turn of the
sequence in that frame ends its run and tells `on_completed`, while the step is being called. -/
theorem nested_turn_completes :
    let a : Outline Command :=
      { name := "a", steps := [.call [.restore (.at ⟨"a", 1⟩), .tick 1 none]] }
    let s := ((Stage.opening {} {}).run false [.register a, .start "a"]).2
    let t := (dispatch (perform 1) (.restore (.at ⟨"a", 1⟩)) (s.lending 0)).2
    let u := (Conductor.takeTurn (perform 1) 1 0 t).2
    (∃ part, Moment.Reached ⟨[.driving 0 (s.sequence 0) part], t⟩) ∧
      (t.sequence 0).running = true ∧ (u.sequence 0).running = false ∧
      u.journal.head? = some (.notified 0 "a" .completed false) := by
  intro a s t u
  have hs : Moment.Reached ⟨[], s⟩ := .of_session (Session.run false _ (.opening {} {}))
  have hrun : (perform 1).Follows := fun c u => (Session.perform 1 c u).leads
  obtain ⟨part, hlent⟩ := hs.lent 0 ⟨by decide, by decide⟩ (by decide) (by decide)
  exact ⟨⟨part, hlent.command hrun (.restore (.at ⟨"a", 1⟩))⟩, by decide +kernel,
    by decide +kernel, by rfl⟩

end Sequencer
