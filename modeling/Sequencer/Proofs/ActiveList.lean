import Sequencer.Proofs.Roster

/-!
# The active list between commands

After calm sessions the active list is exact but for the sequences lost to a stop, and a frame
gives every sequence in it its turn.
-/

set_option autoImplicit false

namespace Sequencer

open Site (Nowhere Within)

def Entry.Begins (id : Nat) : Entry → Prop
  | .began i => i = id
  | .restored i _ => i = id
  | _ => False

/-- Ends the run of the sequence, or takes it off the active list although it runs. -/
def Entry.Ends (id : Nat) : Entry → Prop
  | .notified _ _ .started _ => False
  | .notified i _ _ _ => i = id
  | .dropped i running => i = id ∧ running = true
  | _ => False

/-- A sequence runs on until it is told that its run has ended. -/
theorem Record.running_untold {id : Nat} {l : List Entry}
    (hl : ∀ name hook b, hook ≠ .started → .notified id name hook b ∉ l) {r : Record}
    (hr : r.running = true) : (Record.replay id l r).running = true := by
  induction l with
  | nil => exact hr
  | cons e l ih =>
    have ih := ih fun name hook b hh he => hl name hook b hh (List.mem_cons_of_mem _ he)
    rw [Record.replay_cons]
    cases e with
    | notified i name hook b =>
      have hne : hook ≠ .started → i ≠ id := by
        rintro hh rfl
        exact hl name hook b hh List.mem_cons_self
      cases hook <;> simp_all [Record.after]
    | moved i m c => cases m <;> simp only [Record.after] <;> split <;> exact ih
    | turn i τ => cases τ <;> simp only [Record.after] <;> first | exact ih | (split <;> exact ih)
    | began i => simp only [Record.after]; split <;> first | rfl | exact ih
    | restored i b => simp only [Record.after]; split <;> first | rfl | exact ih
    | _ => exact ih

theorem Record.running_replay {id : Nat} {l : List Entry} (hl : ∀ e ∈ l, ¬ e.Ends id) {r : Record}
    (hr : r.running = true) : (Record.replay id l r).running = true := by
  apply Record.running_untold _ hr
  intro name hook b hh he
  apply hl _ he
  cases hook <;> simp_all [Entry.Ends]

theorem Record.running_begins {id : Nat} {e : Entry} (he : e.Begins id) (r : Record) :
    (r.after id e).running = true := by
  cases e <;> simp_all [Entry.Begins, Record.after]

theorem lost_of_begins {id : Nat} {l rest : List Entry} {e : Entry} (he : e.Begins id)
    (hl : ∀ e ∈ l, ¬ e.Ends id) : lost id (l ++ e :: rest) = false := by
  induction l with
  | nil => cases e <;> simp_all [Entry.Begins, lost]
  | cons e' l ih =>
    have ih := ih fun e'' h => hl e'' (List.mem_cons_of_mem _ h)
    have he' := hl e' List.mem_cons_self
    rw [List.cons_append]
    cases e' with
    | began i => simp only [lost, ih]; split <;> rfl
    | restored i b => simp only [lost, ih]; split <;> rfl
    | dropped i b => cases b <;> simp_all [lost, Entry.Ends]
    | _ => exact ih

namespace Stage

theorem opening_sound (settings : Settings) (host : Host) : (opening settings host).Sound :=
  ⟨fun _ _ hf => absurd hf (by simp [opening, find?, Table.get?]),
    fun _ _ hq => absurd hq (by simp [opening, Table.get?])⟩

theorem sequence_opening (settings : Settings) (host : Host) (id : Nat) :
    (opening settings host).sequence id = {} := rfl

theorem opening_roster (settings : Settings) (host : Host) :
    Roster (fun _ => False) (opening settings host) :=
  ⟨List.nodup_nil, fun _ hi => absurd hi List.not_mem_nil,
    fun _ hi => absurd hi (by simp [sequence_opening]),
    fun _ hi => absurd hi (by simp [sequence_opening]),
    fun _ hi => absurd hi (by simp [lost, opening])⟩

end Stage

namespace Session

variable {calm : Bool} {settings : Settings} {host : Host} {s : Stage}

theorem sound (h : Session calm (.opening settings host) s) : s.Sound :=
  (h.leads.lasts (Stage.opening_sound settings host)).1

/-- Between commands no step is being called. -/
theorem resting (h : Session calm (.opening settings host) s) (id : Nat) :
    (s.sequence id).ticking = false :=
  (h.leads.lasts (Stage.opening_sound settings host)).2.ticking id

theorem roster (h : Session true (.opening settings host) s) : Roster (fun _ => False) s :=
  h.leads.roster rfl (Stage.opening_sound settings host) (Stage.opening_roster settings host)

/-- The journal tells the cursor, the flags and the generation of every sequence. -/
theorem record (h : Session calm (.opening settings host) s) (id : Nat) :
    (s.sequence id).record = Record.replay id s.journal {} := by
  obtain ⟨l, hl, hr⟩ := h.leads.tells (Stage.opening_sound settings host)
  have hj : s.journal = l := by rw [hl]; exact List.append_nil l
  rw [hj, hr id]
  rfl

end Session

namespace Conductor

variable {run : Runner} {dt : Float32} {id : Nat} {s t : Stage}

/-- A frame that comes to its end gives a turn to every sequence in its list. -/
theorem takeTurns_reaches (hrun : run.Follows) {l : List Nat} (hid : id ∈ l)
    (h : takeTurns run dt l s = (.ok (), t)) : ∃ u v, Leads Nowhere true s u ∧
      takeTurn run dt id u = (.ok (), v) ∧ Leads Nowhere true v t := by
  induction l generalizing s with
  | nil => exact absurd hid List.not_mem_nil
  | cons i rest ih =>
    rw [takeTurns, Act.bind_apply] at h
    have hi : Leads Nowhere _ s _ := takeTurn_follows hrun dt i s
    rcases hv : takeTurn run dt i s with ⟨e | a, v⟩ <;> rw [hv] at h hi
    · exact absurd (congrArg Prod.fst h) (by simp)
    have hrest : Leads Nowhere _ v _ := takeTurns_follows hrun dt rest v
    rw [show takeTurns run dt rest v = (.ok (), t) from h] at hrest
    by_cases hne : id = i
    · subst hne
      exact ⟨s, v, .refl s, hv, hrest⟩
    · obtain ⟨u, w, hu, hw, ht⟩ := ih ((List.mem_cons.mp hid).resolve_left hne) h
      exact ⟨u, w, hi.then hu, hw, ht⟩

theorem takeTurn_due (hrun : run.Follows) (hs : s.Sound) (hd : s.Due id)
    (hb : (s.sequence id).ticking = false) : ∃ l, (takeTurn run dt id s).2.journal = l ++
      .turn id (if (s.sequence id).stepCount ≤ (s.sequence id).current then .completed
        else .driven) :: s.journal := by
  have hsweep : (takeTurn run dt id s).2.journal = (turn run dt id s).2.journal := by
    rw [takeTurn_unpaused hd.unpaused]
    rcases turn run dt id s with ⟨e | a, t⟩
    · rfl
    · exact t.journal_sweep id
  rw [hsweep]
  by_cases hc : (s.sequence id).stepCount ≤ (s.sequence id).current
  · rw [if_pos hc, turn_completed hd.running hc]
    obtain ⟨l, hl, -⟩ := ((finish_leads Nowhere hrun id (s.note (.turn id .completed))).lasts
      ((hs.note _).ending id _ _)).2.journal
    exact ⟨l ++ [_, _], by rw [hl, List.append_assoc]; rfl⟩
  · rw [if_neg hc]
    have hc : (s.sequence id).current < (s.sequence id).stepCount := by omega
    have hp := List.getElem?_eq_getElem (l := (s.sequence id).parts) hc
    rw [turn_driven hd.running hp hb]
    generalize (s.sequence id).parts[(s.sequence id).current] = part
    rcases h : playPart run dt id (s.sequence id) part (part.progress, s.lending id) with ⟨r, p, t⟩
    have hf := playPart_follows hrun dt id (s.sequence id) part (part.progress, s.lending id)
    rw [h] at hf
    obtain ⟨l, hl, -⟩ := (hf.lasts (hs.lending id)).2.journal
    obtain ⟨l', hl'⟩ := t.journal_afterPlay id (s.sequence id) ⟨part.step, p⟩ r
    rw [driveStep_apply h]
    refine ⟨l' ++ l, ?_⟩
    rw [hl', List.append_assoc]
    exact congrArg (l' ++ ·) hl

theorem takeTurn_leads (hrun : run.Follows) {r : Except Halt Unit}
    (h : takeTurn run dt id s = (r, t)) : Leads Nowhere r.isOk s t := by
  have hl : Leads Nowhere _ s _ := takeTurn_follows hrun dt id s
  rwa [h] at hl

/-- A turn is noted before anything comes of it. -/
theorem takeTurn_notes (hrun : run.Follows) (hs : s.Sound) (hb : (s.sequence id).ticking = false) :
    ∃ l τ, (takeTurn run dt id s).2.journal = l ++ .turn id τ :: s.journal ∧ (s.Due id →
      τ = if (s.sequence id).stepCount ≤ (s.sequence id).current then .completed else .driven) := by
  by_cases hp : (s.sequence id).paused = true
  · refine ⟨[], .paused, by rw [takeTurn_paused hp]; rfl, fun hd => ?_⟩
    rw [hd.unpaused] at hp
    exact absurd hp (by simp)
  have hp : (s.sequence id).paused = false := by simpa using hp
  by_cases hr : (s.sequence id).running = true
  · obtain ⟨l, hl⟩ := takeTurn_due hrun hs ⟨hp, hr⟩ hb
    exact ⟨l, _, hl, fun _ => rfl⟩
  · refine ⟨[], .idle, ?_, fun hd => absurd hd.running hr⟩
    rw [takeTurn_unpaused hp, turn_idle (by simpa using hr)]
    exact Stage.journal_sweep _ id

end Conductor

/-- A sequence is in the active list exactly if it runs and was not lost to a stop whose callback
set it running again. So whatever a start or a restore has set running, and nothing has ended or
lost since, has its turn in the next frame: unless it is paused or ended before its turn comes, its
step is driven, or it completes if none is left. -/
theorem active_exact {settings : Settings} {host : Host} {s : Stage}
    (h : Session true (.opening settings host) s) :
    s.active.Nodup ∧ (∀ id, id ∈ s.active → s.Registered id) ∧
    (∀ id, id ∈ s.active ↔ (s.sequence id).running = true ∧ lost id s.journal = false) ∧
    ∀ id l e rest, s.journal = l ++ e :: rest → e.Begins id → (∀ e' ∈ l, ¬ e'.Ends id) →
      ∀ (run : Runner) (dt : Float32) (t : Stage),
        (∀ c u, Session (run c u).1.isOk u (run c u).2) → Conductor.tick run dt s = (.ok (), t) →
        ∃ u l' l'' τ, Leads Site.Nowhere true s u ∧ u.journal = l' ++ s.journal ∧
          t.journal = l'' ++ .turn id τ :: u.journal ∧
          ((∀ e' ∈ l', ¬ e'.Ends id) → (u.sequence id).paused = false →
            τ = if (u.sequence id).stepCount ≤ (u.sequence id).current then .completed
              else .driven) := by
  have hX := h.roster
  have hmem : ∀ id, id ∈ s.active ↔ (s.sequence id).running = true ∧ lost id s.journal = false := by
    intro id
    constructor
    · intro hi
      refine ⟨((hX.listed id hi).resolve_left fun hf => hf).2, ?_⟩
      exact Bool.eq_false_iff.mpr fun hl => hX.lost id hl hi
    · rintro ⟨hr, hl⟩
      refine (hX.active id hr).resolve_right ?_
      rw [hl]
      simp
  refine ⟨hX.nodup, fun id hi => hX.registered id ((hmem id).mp hi).1, hmem, ?_⟩
  intro id l e rest hj he hl run dt t callbacks ht
  have hrunning : (s.sequence id).running = true := by
    have hr := congrArg Record.running (h.record id)
    rw [hj, Record.replay_append, Record.replay_cons] at hr
    exact hr.trans (Record.running_replay hl (Record.running_begins he _))
  have hi : id ∈ s.active := (hmem id).mpr ⟨hrunning, by rw [hj]; exact lost_of_begins he hl⟩
  have hrun : run.Follows := fun c u => (callbacks c u).leads
  obtain ⟨u, v, hu, hv, hvt⟩ := Conductor.takeTurns_reaches hrun hi ht
  obtain ⟨hus, hue⟩ := hu.lasts h.sound
  obtain ⟨l', hl', hrec⟩ := hu.tells h.sound
  obtain ⟨l₁, τ, hτ, hdue⟩ := Conductor.takeTurn_notes hrun hus
    ((hue.ticking id).trans (h.resting id))
  rw [hv] at hτ
  obtain ⟨l₂, hl₂, -⟩ := (hvt.lasts ((Conductor.takeTurn_leads hrun hv).lasts hus).1).2.journal
  refine ⟨u, l', l₂ ++ l₁, τ, hu, hl', by rw [hl₂, hτ, List.append_assoc], fun hends hp => ?_⟩
  refine hdue ⟨hp, ?_⟩
  have hr := congrArg Record.running (hrec id)
  exact hr.trans (Record.running_replay hends hrunning)

theorem Act.eq_of_isOk {act : Act Unit} {s : Stage} (h : (act s).1.isOk = true) :
    act s = (.ok (), (act s).2) := by
  rcases hr : act s with ⟨e | a, t⟩
  · rw [hr] at h
    exact absurd h (by simp [Except.isOk, Except.toBool])
  · rfl

/-- A sequence of one step that is started and then driven. -/
theorem active_exact_started :
    let a : Outline Command := { name := "a", steps := [.call []] }
    let l : List Command := [.register a, .start "a"]
    let s := ((Stage.opening {} {}).run false l).2
    let t := (Conductor.tick (perform 1) 1 s).2
    Session true (.opening {} {}) s ∧ 0 ∈ s.active ∧
      ∃ (u : Stage) (l' l'' : List Entry) (τ : Turn), u.journal = l' ++ s.journal ∧
        t.journal = l'' ++ .turn 0 τ :: u.journal := by
  intro a l s t
  have hcalm : (Stage.opening {} {}).calmly l = true := by decide
  have h : Session true (.opening {} {}) s := hcalm ▸ Session.run false l (.opening {} {})
  have hactive : 0 ∈ s.active := ((active_exact h).2.2.1 0).mpr ⟨by decide, by decide⟩
  have hok : (Conductor.tick (perform 1) 1 s).1.isOk = true := by decide +kernel
  refine ⟨h, hactive, ?_⟩
  obtain ⟨u, l', l'', τ, -, hu, ht, -⟩ := (active_exact h).2.2.2 0
    [.notified 0 "a" .started false, .moved 0 .started 0] (.began 0) _ rfl rfl
    (by simp [Entry.Ends]) (perform 1) 1 t (Session.perform 1) (Act.eq_of_isOk hok)
  exact ⟨u, l', l'', τ, hu, ht⟩

/-- A sequence that starts itself when it is told that it was stopped runs on off the list. -/
theorem restarted_by_stop_not_active :
    let a : Outline Command :=
      { name := "a", steps := [.wait 5], onStopped := some [.start "a"] }
    let l : List Command := [.register a, .start "a", .stop "a"]
    let s := ((Stage.opening {} {}).run false l).2
    Session true (.opening {} {}) s ∧ s.Registered 0 ∧ (s.sequence 0).running = true ∧
      0 ∉ s.active := by
  intro a l s
  have hcalm : (Stage.opening {} {}).calmly l = true := by decide
  exact ⟨hcalm ▸ Session.run false l (.opening {} {}), ⟨"a", by decide⟩, by decide, by decide⟩

end Sequencer
