import Sequencer.Proofs.Cursor

/-!
# Sequences that are left alone

As long as nobody sets a sequence running, ends its run or moves its cursor, it stays as it is,
whatever is done to the others and whatever halts: it runs on at the same step, and it stays in the
active list.
-/

set_option autoImplicit false

namespace Sequencer

open Site (Nowhere Within)

def OnlyAdds (P : Entry → Prop) (s t : Stage) : Prop :=
  ∃ l, t.journal = l ++ s.journal ∧ ∀ e ∈ l, P e

namespace OnlyAdds

variable {P Q : Entry → Prop} {s t u : Stage}

theorem of_append {l : List Entry} (h : OnlyAdds P s t) (hl : t.journal = l ++ s.journal) :
    ∀ e ∈ l, P e := by
  obtain ⟨l', hl', hP⟩ := h
  obtain rfl : l' = l := List.append_cancel_right (hl'.symm.trans hl)
  exact hP

theorem mono (h : OnlyAdds P s t) (hw : ∀ e, P e → Q e) : OnlyAdds Q s t := by
  obtain ⟨l, hl, hP⟩ := h
  exact ⟨l, hl, fun e he => hw e (hP e he)⟩

theorem trans (h : OnlyAdds P s t) (h' : OnlyAdds P t u) : OnlyAdds P s u := by
  obtain ⟨l, hl, hP⟩ := h
  obtain ⟨l', hl', hP'⟩ := h'
  refine ⟨l' ++ l, by rw [hl', hl, List.append_assoc], fun e he => ?_⟩
  exact (List.mem_append.mp he).elim (hP' e) (hP e)

/-- What holds of all entries of a stretch holds of those of its two parts. -/
theorem split (h : OnlyAdds P s u) (hst : Grows s t) (htu : Grows t u) :
    OnlyAdds P s t ∧ OnlyAdds P t u := by
  obtain ⟨l, hl⟩ := hst
  obtain ⟨l', hl'⟩ := htu
  have hP := h.of_append (l := l' ++ l) (by rw [hl', hl, List.append_assoc])
  exact ⟨⟨l, hl, fun e he => hP e (List.mem_append_right _ he)⟩,
    ⟨l', hl', fun e he => hP e (List.mem_append_left _ he)⟩⟩

theorem of_newEntries (hg : Grows s t) (h : ∀ e ∈ s.newEntries t, P e) : OnlyAdds P s t := by
  obtain ⟨l, hl⟩ := hg
  rw [Stage.newEntries_of_append hl] at h
  exact ⟨l, hl, fun e he => h e (List.mem_reverse.mpr he)⟩

theorem of_same (h : t.journal = s.journal) : OnlyAdds P s t := ⟨[], h, by simp⟩

theorem refl (P : Entry → Prop) (s : Stage) : OnlyAdds P s s := .of_same rfl

end OnlyAdds

def Entry.Handles (id : Nat) (e : Entry) : Prop := e.Begins id ∨ e.Ends id ∨ e.Moves id

def LeftAlone (id : Nat) : Stage → Stage → Prop := OnlyAdds fun e => ¬ e.Handles id

structure Record.GoesOn (r r' : Record) : Prop where
  current : r'.current = r.current
  running : r'.running = r.running
  generation : r'.generation = r.generation
  entered : r.entered = true → r'.entered = true

namespace Record

variable {id : Nat} {r r' r'' : Record}

theorem GoesOn.refl (r : Record) : r.GoesOn r := ⟨rfl, rfl, rfl, fun h => h⟩

theorem GoesOn.trans (h : r.GoesOn r') (h' : r'.GoesOn r'') : r.GoesOn r'' :=
  ⟨h'.current.trans h.current, h'.running.trans h.running, h'.generation.trans h.generation,
    fun he => h'.entered (h.entered he)⟩

theorem after_unhandled {e : Entry} (he : ¬ e.Handles id) (r : Record) :
    r.GoesOn (r.after id e) := by
  obtain ⟨hc, hg⟩ := after_unmoved (fun hm => he (.inr (.inr hm))) r
  refine ⟨hc, ?_, hg, ?_⟩
  all_goals
    cases e with
    | began i => simp_all [after, Entry.Handles, Entry.Begins]
    | restored i b => simp_all [after, Entry.Handles, Entry.Begins]
    | moved i m c => cases m <;> simp_all [after, Entry.Handles, Entry.Moves]
    | notified i name hook b => cases hook <;> simp_all [after, Entry.Handles, Entry.Ends]
    | turn i τ =>
      cases τ <;> simp [after]
      split <;> simp_all
    | _ => first | rfl | exact fun h => h

theorem replay_unhandled {l : List Entry} (hl : ∀ e ∈ l, ¬ e.Handles id) (r : Record) :
    r.GoesOn (replay id l r) := by
  induction l with
  | nil => exact .refl r
  | cons e l ih =>
    have hrest := ih fun e' he' => hl e' (List.mem_cons_of_mem _ he')
    exact hrest.trans (after_unhandled (hl e List.mem_cons_self) _)

end Record

section

variable {own : Site → Prop} {calm : Bool} {s t : Stage} {id : Nat}

theorem Tells.goesOn (h : Tells s t) (ha : LeftAlone id s t) :
    (s.sequence id).record.GoesOn (t.sequence id).record := by
  obtain ⟨l, hl, hr⟩ := h
  rw [hr id]
  exact Record.replay_unhandled (ha.of_append hl) _

/-- A sequence whose run nobody ends runs on. -/
theorem Tells.running (h : Tells s t) (hends : OnlyAdds (fun e => ¬ e.Ends id) s t)
    (hr : (s.sequence id).running = true) : (t.sequence id).running = true := by
  obtain ⟨l, hl, hrec⟩ := h
  exact (congrArg Record.running (hrec id)).trans
    (Record.running_replay (hends.of_append hl) hr)

/-- A sequence that did not run when it was left alone has not run since. -/
theorem Tells.ran (h : Tells s t) (ha : LeftAlone id s t) (hr : (t.sequence id).running = true) :
    (s.sequence id).running = true := (h.goesOn ha).running.symm.trans hr

end

namespace Stage

variable (s : Stage) {id i : Nat}

theorem mem_active_sweep (hr : (s.sequence id).running = true) (hid : id ∈ s.active) :
    id ∈ (s.sweep i).active := by
  unfold sweep
  split
  · exact hid
  · next h =>
    refine (s.mem_active_delist i id).mpr ⟨hid, ?_⟩
    rintro rfl
    exact h hr

/-- The end of another run leaves the sequence running. -/
theorem running_ending_of_unended {hook : Hook} (hh : hook ≠ .started) (n : Notice)
    (h : OnlyAdds (fun e => ¬ e.Ends id) s (s.ending i hook n)) :
    id ≠ i ∧ ((s.ending i hook n).sequence id).running = (s.sequence id).running := by
  have hne : id ≠ i := by
    rintro rfl
    have htold := h.of_append (l := [.notified id _ hook _, .notice n]) rfl _ List.mem_cons_self
    cases hook <;> first | exact absurd rfl hh | exact htold rfl
  refine ⟨hne, ?_⟩
  rw [Stage.ending, Stage.sequence_notify, Stage.sequence_note, s.sequence_modify_ne _ hne]

end Stage

theorem Grows.to_if {t u : Stage} (h : Grows t u) (calm : Bool) :
    Grows t (if calm then u else t) := by
  cases calm with
  | true => exact h
  | false => exact .refl t

/-- The journal goes on when a step that was driven comes back. -/
theorem Grows.back (t : Stage) (id : Nat) (q : Sequence) (part : Part) (r : Except Halt Status) :
    Grows t (let u := t.afterPlay id q part r
      if r.isOk then u.sweep id else u) := by
  have hback := Grows.of_eq (Stage.journal_sweep (t.afterPlay id q part r) id)
  exact Grows.trans (t.journal_afterPlay id q part r) (hback.to_if r.isOk)

theorem Stage.mem_active_if {t u : Stage} {id : Nat} (h : id ∈ t.active)
    (hu : id ∈ t.active → id ∈ u.active) (calm : Bool) :
    id ∈ (if calm then u else t : Stage).active := by
  cases calm with
  | true => exact hu h
  | false => exact h

/-- Listed and running, as long as nobody ends the run. -/
theorem Leads.listed {own : Site → Prop} {calm : Bool} {s t : Stage} (h : Leads own calm s t)
    (hs : s.Sound) {id : Nat} (hends : OnlyAdds (fun e => ¬ e.Ends id) s t)
    (hr : (s.sequence id).running = true) (hid : id ∈ s.active) : id ∈ t.active := by
  induction h with
  | aside h => rwa [h.active]
  | halt _ ih => exact ih hs hends hr hid
  | trans h h' ih ih' =>
    obtain ⟨hst, htu⟩ := hends.split h.course.grows h'.course.grows
    exact ih' (h.lasts hs).1 htu ((h.tells hs).running hst hr) (ih hs hst hr hid)
  | widen _ _ ih => exact ih hs hends hr hid
  | called s c _ => exact hid
  | returned s r _ => exact hid
  | held s h _ => exact hid
  | registered resolve o _ => exact hid
  | registeredHeld _ _ => exact hid
  | checked s i => exact hid
  | paused s i f => exact hid
  | @started own s name i n _ _ => exact (Stage.mem_active_enlist _ i id).mpr (.inr hid)
  | reset _ => exact hid
  | @restored own s name i index _ => exact (Stage.mem_active_enlist _ i id).mpr (.inr hid)
  | @stoppedIdle own s name i _ hidle =>
    refine (Stage.mem_active_delist _ i id).mpr ⟨hid, ?_⟩
    rintro rfl
    rw [hr] at hidle
    exact absurd hidle (by simp)
  | @stopped own calm s t name i n hn hrun h ih =>
    have hgrow : Grows s (s.ending i .stopped n) := ⟨[_, _], rfl⟩
    have hback : Grows t (t.dropping i) := ⟨[_], rfl⟩
    obtain ⟨hst, -⟩ := hends.split (hgrow.trans h.course.grows) (hback.to_if calm)
    obtain ⟨hend, hst⟩ := hst.split hgrow h.course.grows
    obtain ⟨hne, hr'⟩ := s.running_ending_of_unended (by simp) n hend
    have ht := ih (hs.ending i .stopped n) hst (hr'.trans hr) hid
    exact Stage.mem_active_if (u := t.dropping i) ht
      (fun ht => (Stage.mem_active_delist _ i id).mpr ⟨ht, hne⟩) calm
  | @removedIdle own s name i _ hidle =>
    refine (Stage.mem_active_delist _ i id).mpr ⟨hid, ?_⟩
    rintro rfl
    rw [hr] at hidle
    exact absurd hidle (by simp)
  | @removed own calm s t name i n hn hrun h ih =>
    have hgrow : Grows s ((s.unregister name).ending i .stopped n) := ⟨[_, _], rfl⟩
    have hback : Grows t (t.delist i) := .of_eq rfl
    obtain ⟨hst, -⟩ := hends.split (hgrow.trans h.course.grows) (hback.to_if calm)
    obtain ⟨hend, hst⟩ := hst.split hgrow h.course.grows
    obtain ⟨hne, hr'⟩ := (s.unregister name).running_ending_of_unended (by simp) n hend
    have ht := ih ((hs.unregister name).ending i .stopped n) hst (hr'.trans hr) hid
    exact Stage.mem_active_if ht (fun ht => (Stage.mem_active_delist _ i id).mpr ⟨ht, hne⟩) calm
  | passed _ => exact hid
  | @idle own s i _ _ => exact (s.note (.turn i .idle)).mem_active_sweep hr hid
  | @completed own calm s t i n hd hc h ih =>
    have hgrow : Grows s ((s.note (.turn i .completed)).ending i .completed n) := ⟨[_, _, _], rfl⟩
    have hback : Grows t (t.sweep i) := .of_eq (t.journal_sweep i)
    obtain ⟨hst, -⟩ := hends.split (hgrow.trans h.course.grows) (hback.to_if calm)
    obtain ⟨hend, hst⟩ := hst.split hgrow h.course.grows
    obtain ⟨-, hend⟩ := hend.split (t := s.note (.turn i .completed)) ⟨[_], rfl⟩ ⟨[_, _], rfl⟩
    obtain ⟨-, hr'⟩ := (s.note (.turn i .completed)).running_ending_of_unended (by simp) n hend
    have hs' := (hs.note (.turn i .completed)).ending i .completed n
    have ht := ih hs' hst (hr'.trans hr) hid
    have hrun := (h.tells hs').running hst (hr'.trans hr)
    exact Stage.mem_active_if ht (t.mem_active_sweep hrun) calm
  | @busy own s i _ _ _ => exact (s.note (.turn i .busy)).mem_active_sweep hr hid
  | @driven own s t i part run dt r p _ _ _ _ _ h _ ih =>
    have hlent : Grows s (s.lending i) := ⟨[_], rfl⟩
    obtain ⟨hst, -⟩ := hends.split (hlent.trans h.course.grows)
      (.back t i (s.sequence i) ⟨part.step, p⟩ r)
    obtain ⟨-, hst⟩ := hst.split hlent h.course.grows
    have hr' : ((s.lending i).sequence id).running = true := by
      by_cases hi : id = i
      · subst hi
        rw [s.sequence_lending_self (s.lt_of_running hr)]
        exact hr
      · rw [s.sequence_lending_ne hi]
        exact hr
    have ht := ih (hs.lending i) hst hr' hid
    have hrun := (h.tells (hs.lending i)).running hst hr'
    rw [← t.running_afterPlay i (s.sequence i) ⟨part.step, p⟩ r id] at hrun
    rw [← t.active_afterPlay i (s.sequence i) ⟨part.step, p⟩ r] at ht
    exact Stage.mem_active_if ht (Stage.mem_active_sweep _ hrun) r.isOk

end Sequencer
