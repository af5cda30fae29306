import Sequencer.Proofs.Cursor
import Sequencer.Proofs.Turns.Order
import Sequencer.Proofs.Turns.Driven

/-!
# What a frame does

A frame goes through a copy of the active list. Each member gets one turn, in order, and is
driven in it if it is due at that moment, whatever the turns before did to it; nobody else is
driven. That is said of frames that come to their end and in which no callback asks for another
frame.
-/

set_option autoImplicit false

namespace Sequencer

open Site (Nowhere Within)

/-- What comes of the turn of a sequence that begins on the stage `u`: the entries `l` since. -/
structure TurnGoes (dt : Float32) (u : Stage) (id : Nat) (l : List Entry) : Prop where
  /-- Nothing at all is done with a sequence that is paused or does not run. -/
  passed : ¬ u.Due id → l = []
  /-- Past its last step the sequence completes. -/
  completed : u.Due id → (u.sequence id).stepCount ≤ (u.sequence id).current →
    ∃ l' b n, l = l' ++ [.notified id (u.sequence id).name .completed b, .notice n]
  /-- The step at the cursor is called, first to be entered if it was not, and is ticked. -/
  driven : u.Due id → (u.sequence id).current < (u.sequence id).stepCount →
    (∃ l' call n, l = l' ++ .called (.top id (u.sequence id).current) call :: n ∧
      (∀ e ∈ n, ∃ m, e = .notice m) ∧
      (call = .enter ↔ (u.sequence id).entered = false)) ∧
    .called (.top id (u.sequence id).current) (.tick dt) ∈ l

/-- A sequence is driven in its turn if and only if it runs and is not paused. -/
theorem TurnGoes.driven_iff {dt : Float32} {u : Stage} {id : Nat} {l : List Entry}
    (h : TurnGoes dt u id l) : (∃ e ∈ l, e.Drives id) ↔ u.Due id := by
  constructor
  · rintro ⟨e, he, -⟩
    refine Classical.byContradiction fun hd => ?_
    rw [h.passed hd] at he
    exact absurd he List.not_mem_nil
  · intro hd
    by_cases hc : (u.sequence id).stepCount ≤ (u.sequence id).current
    · obtain ⟨l', b, n, rfl⟩ := h.completed hd hc
      exact ⟨.notified id (u.sequence id).name .completed b, by simp, rfl⟩
    · exact ⟨_, (h.driven hd (by omega)).2, rfl⟩

/-! One turn -/

namespace Conductor

variable {run : Runner} {dt : Float32} {id : Nat} {s t u v w : Stage}

theorem playPart_ticks (hrun : run.Follows) {q : Sequence} {part : Part}
    {x y : part.step.Progress × Stage} {status : Status}
    (h : playPart run dt id q part x = (.ok status, y)) : ∃ l l',
      y.2.journal = l ++ .called (.top id q.current) (.tick dt) :: (l' ++ x.2.journal) := by
  obtain ⟨l, hl, hdriven⟩ := playPart_driven hrun h
  obtain ⟨l₁, l₂, l₃, rfl⟩ := hdriven.ends
  exact ⟨l₁ ++ .returned (.top id q.current) (some status) :: l₂, l₃, by simp [hl]⟩

/-- The turn of a sequence that is due and has a step left. -/
theorem turn_drives (hrun : run.Follows) (hd : u.Due id)
    (hc : (u.sequence id).current < (u.sequence id).stepCount)
    (hb : (u.sequence id).ticking = false) (hturn : turn run dt id u = (.ok (), v)) :
    ∃ l, v.journal = l ++ .turn id .driven :: u.journal ∧
      (∃ l' call n, l = l' ++ .called (.top id (u.sequence id).current) call :: n ∧
        (∀ e ∈ n, ∃ m, e = .notice m) ∧
        (call = .enter ↔ (u.sequence id).entered = false)) ∧
      .called (.top id (u.sequence id).current) (.tick dt) ∈ l := by
  have hpart := List.getElem?_eq_getElem (l := (u.sequence id).parts) hc
  rw [turn_driven hd.running hpart hb] at hturn
  generalize (u.sequence id).parts[(u.sequence id).current] = part at hturn
  rcases h : playPart run dt id (u.sequence id) part (part.progress, u.lending id) with
    ⟨r, p, w⟩
  rw [driveStep_apply h] at hturn
  obtain ⟨hr, rfl⟩ := Prod.mk.inj hturn
  obtain ⟨l₁, call, n, hcalls, hn, hcall⟩ := playPart_calls hrun h
  obtain ⟨l₂, hback⟩ := w.journal_afterPlay id (u.sequence id) ⟨part.step, p⟩ r
  have hw : w.journal = (l₁ ++ .called (.top id (u.sequence id).current) call :: n) ++
      .turn id .driven :: u.journal := by
    rw [show w.journal = _ from hcalls, u.journal_lending]
    simp
  refine ⟨l₂ ++ (l₁ ++ .called (.top id (u.sequence id).current) call :: n), ?_, ?_, ?_⟩
  · rw [hback, hw]
    simp
  · exact ⟨l₂ ++ l₁, call, n, by simp, hn, hcall⟩
  · cases r with
    | error e => exact absurd hr (by simp [Except.map])
    | ok status =>
      obtain ⟨l₃, l₄, hticks⟩ := playPart_ticks hrun h
      have hmem : l₁ ++ .called (.top id (u.sequence id).current) call :: n =
          l₃ ++ .called (.top id (u.sequence id).current) (.tick dt) :: l₄ := by
        apply @List.append_cancel_right _ _ (u.lending id).journal
        rw [u.journal_lending, ← hw]
        rw [show w.journal = _ from hticks, u.journal_lending]
        simp
      rw [hmem]
      simp

theorem takeTurn_goes (hrun : run.Follows) (hb : (u.sequence id).ticking = false)
    (h : takeTurn run dt id u = (.ok (), v)) :
    ∃ l, v.journal = l ++ .turn id (u.turnOf id) :: u.journal ∧ TurnGoes dt u id l := by
  by_cases hp : (u.sequence id).paused = true
  · have hnot : ¬ u.Due id := fun hd => absurd (hd.unpaused.symm.trans hp) (by simp)
    rw [takeTurn_paused hp] at h
    obtain ⟨-, rfl⟩ := Prod.mk.inj h
    exact ⟨[], by rw [u.turnOf_paused hp]; rfl, fun _ => rfl, fun hd => absurd hd hnot,
      fun hd => absurd hd hnot⟩
  have hp : (u.sequence id).paused = false := by simpa using hp
  rw [takeTurn_unpaused hp] at h
  rcases hturn : turn run dt id u with ⟨e | a, w⟩ <;> rw [hturn] at h
  · exact absurd (congrArg Prod.fst h) (by simp)
  obtain ⟨-, rfl⟩ := Prod.mk.inj h
  rw [w.journal_sweep]
  by_cases hr : (u.sequence id).running = true
  · have hd : u.Due id := ⟨hp, hr⟩
    by_cases hc : (u.sequence id).stepCount ≤ (u.sequence id).current
    · obtain ⟨l, b, n, hl⟩ := turn_completes hrun hd hc hturn
      exact ⟨_, by rw [u.turnOf_completed hd hc]; exact hl, fun hnd => absurd hd hnd,
        fun _ _ => ⟨l, b, n, rfl⟩, fun _ hlt => absurd hlt (by omega)⟩
    · have hlt : (u.sequence id).current < (u.sequence id).stepCount := by omega
      obtain ⟨l, hl, hcalls⟩ := turn_drives hrun hd hlt hb hturn
      exact ⟨l, by rw [u.turnOf_driven hd hlt hb]; exact hl, fun hnd => absurd hd hnd,
        fun _ hle => absurd hle hc, fun _ _ => hcalls⟩
  · have hnot : ¬ u.Due id := fun hd => hr hd.running
    have hr : (u.sequence id).running = false := by simpa using hr
    rw [turn_idle hr] at hturn
    obtain ⟨-, rfl⟩ := Prod.mk.inj hturn
    exact ⟨[], by rw [u.turnOf_idle hp hr]; rfl, fun _ => rfl, fun hd => absurd hd hnot,
      fun hd => absurd hd hnot⟩

/-! The turns of a list -/

def Passes (ids : List Nat) (s t : Stage) : Prop := ∃ l, t.journal = l ++ s.journal ∧
  ((∀ e ∈ l, e.isTicked = false) →
    l.reverse.filterMap Entry.turnId? = ids ∧ ∀ e ∈ l, ∀ id, e.Drives id → id ∈ ids)

theorem Passes.trans {ids ids' : List Nat} (h : Passes ids s t) (h' : Passes ids' t u) :
    Passes (ids ++ ids') s u := by
  obtain ⟨l, hl, hp⟩ := h
  obtain ⟨l', hl', hp'⟩ := h'
  refine ⟨l' ++ l, by rw [hl', hl, List.append_assoc], fun hq => ?_⟩
  obtain ⟨hids, hd⟩ := hp fun e he => hq e (List.mem_append_right _ he)
  obtain ⟨hids', hd'⟩ := hp' fun e he => hq e (List.mem_append_left _ he)
  constructor
  · rw [List.reverse_append, List.filterMap_append, hids, hids']
  · intro e he id hid
    rcases List.mem_append.mp he with he | he
    · exact List.mem_append_right _ (hd' e he id hid)
    · exact List.mem_append_left _ (hd e he id hid)

def Rounds (ids : List Nat) (s t : Stage) : Prop := ∃ l, t.journal = l ++ s.journal ∧
  l.reverse.filterMap Entry.turnId? = ids ∧ ∀ e ∈ l, ∀ id, e.Drives id → id ∈ ids

theorem Passes.rounds {ids : List Nat} (h : Passes ids s t)
    (quiet : ∀ e ∈ s.newEntries t, e.isTicked = false) : Rounds ids s t := by
  obtain ⟨l, hl, hp⟩ := h
  rw [Stage.newEntries_of_append hl] at quiet
  exact ⟨l, hl, hp fun e he => quiet e (List.mem_reverse.mpr he)⟩

/-- The turns of a list are those of its first part, and then those of the rest. -/
theorem takeTurns_append {before : List Nat} {u : Stage}
    (hu : takeTurns run dt before s = (.ok (), u)) (l : List Nat) :
    takeTurns run dt (before ++ l) s = takeTurns run dt l u := by
  induction before generalizing s with
  | nil =>
    obtain ⟨-, rfl⟩ := Prod.mk.inj (show (Except.ok (), s) = (.ok (), u) from hu)
    rfl
  | cons i rest ih =>
    rw [takeTurns, Act.bind_apply] at hu
    rw [List.cons_append, takeTurns, Act.bind_apply]
    rcases hw : takeTurn run dt i s with ⟨e | a, w⟩ <;> rw [hw] at hu
    · exact absurd (congrArg Prod.fst hu) (by simp)
    · exact ih hu

/-- The turns before that of a member, its own, and those after it. -/
theorem takeTurns_split {before after : List Nat}
    (h : takeTurns run dt (before ++ id :: after) s = (.ok (), t)) :
    ∃ u v, takeTurns run dt before s = (.ok (), u) ∧ takeTurn run dt id u = (.ok (), v) ∧
      takeTurns run dt after v = (.ok (), t) := by
  induction before generalizing s with
  | nil =>
    rw [List.nil_append, takeTurns, Act.bind_apply] at h
    rcases hv : takeTurn run dt id s with ⟨e | a, v⟩ <;> rw [hv] at h
    · exact absurd (congrArg Prod.fst h) (by simp)
    · exact ⟨s, v, rfl, hv, h⟩
  | cons i rest ih =>
    rw [List.cons_append, takeTurns, Act.bind_apply] at h
    rcases hw : takeTurn run dt i s with ⟨e | a, w⟩ <;> rw [hw] at h
    · exact absurd (congrArg Prod.fst h) (by simp)
    · obtain ⟨u, v, hu, hv, ht⟩ := ih h
      refine ⟨u, v, ?_, hv, ht⟩
      rw [takeTurns, Act.bind_apply, hw]
      exact hu

theorem takeTurns_leads (hrun : run.Follows) {ids : List Nat} {r : Except Halt Unit}
    (h : takeTurns run dt ids s = (r, t)) : Leads Nowhere r.isOk s t := by
  have hl : Leads Nowhere _ s _ := takeTurns_follows hrun dt ids s
  rwa [h] at hl

end Conductor

/-! What the journal tells when a turn comes -/

/-- Every entry of a journal that began empty stands for what it says. -/
theorem Course.stands {own : Site → Prop} {calm : Bool} {settings : Settings} {host : Host}
    {s : Stage} (h : Course own calm (.opening settings host) s) :
    ∀ l e j, s.journal = l ++ e :: j → e.Stands s l j := by
  obtain ⟨l', hl', hst⟩ := (h.ordered (Stage.opening_sound settings host)
    (Stage.opening_tracked settings host)).journal
  have hnil : (Stage.opening settings host).journal = [] := rfl
  intro l e j hj
  rw [hl', hnil, List.append_nil] at hj
  have he := hst l e j hj
  rwa [hnil, List.append_nil] at he

namespace Record

/-- A sequence that was stopped does not run until it is set running again. -/
theorem idle_replay {id : Nat} {l : List Entry} (hl : ∀ e ∈ l, ¬ e.Begins id) {r : Record}
    (hr : r.running = false) : (replay id l r).running = false := by
  induction l with
  | nil => exact hr
  | cons e l ih =>
    have ih := ih fun e' he' => hl e' (List.mem_cons_of_mem _ he')
    have he := hl e List.mem_cons_self
    rw [replay_cons]
    cases e with
    | notified i name hook b =>
      cases hook <;> simp only [after] <;> first | exact ih | (split <;> first | rfl | exact ih)
    | moved i m c => cases m <;> simp only [after] <;> split <;> exact ih
    | turn i τ => cases τ <;> simp only [after] <;> first | exact ih | (split <;> exact ih)
    | began i => simp_all [after, Entry.Begins]
    | restored i b => simp_all [after, Entry.Begins]
    | _ => exact ih

/-- After a start the cursor is at the first step, until the sequence is driven or restored. -/
theorem current_started {s : Stage} {id c : Nat} {j : List Entry} {m : List Entry}
    (before : List Entry)
    (h : ∀ l e j', before ++ (m ++ .moved id .started c :: j) = l ++ e :: j' → e.Stands s l j')
    (hd : ∀ e ∈ m, e ≠ .turn id .driven) (hr : ∀ i c', .moved id (.restored i) c' ∉ m) :
    (replay id (m ++ .moved id .started c :: j) {}).current = 0 := by
  induction m generalizing before with
  | nil =>
    have hc := (h before _ j rfl).1
    simp [after, hc]
  | cons e m ih =>
    have hstands := h before e (m ++ .moved id .started c :: j) rfl
    have hrest : (replay id (m ++ .moved id .started c :: j) {}).current = 0 := by
      apply ih (before ++ [e])
      · intro l e' j' hj
        exact h l e' j' (by rw [← hj]; simp)
      · exact fun e' he' => hd e' (List.mem_cons_of_mem _ he')
      · exact fun i c' he' => hr i c' (List.mem_cons_of_mem _ he')
    rw [List.cons_append, replay_cons]
    by_cases hm : e.Moves id
    · cases e with
      | moved i k c' =>
        obtain rfl : i = id := hm
        cases k with
        | started => simp [after, hstands.1]
        | reset => simp [after, show c' = 0 from hstands]
        | restored index => exact absurd List.mem_cons_self (hr index c')
        | settled =>
          -- a step only settles if nothing moved the cursor since the drive, but the start did
          obtain ⟨status, since, rest, j', hj', -, ⟨rfl, -⟩, hfree, -⟩ := hstands
          rcases List.append_eq_append_iff.mp
            (show m ++ (.moved i .started c :: j) = (.drove i status :: since) ++
              .turn i .driven :: rest from hj') with ⟨k, hk, hk'⟩ | ⟨k, rfl, hk'⟩
          · rcases List.cons_eq_append_iff.mp hk' with ⟨rfl, hturn⟩ | ⟨k', rfl, -⟩
            · exact absurd (List.cons.inj hturn).1 (by simp)
            · have hin : .moved i .started c ∈ .drove i status :: since := by
                rw [hk]
                simp
              rcases List.mem_cons.mp hin with hin | hin
              · exact absurd hin (by simp)
              · exact absurd rfl (hfree _ hin)
          · rcases List.cons_eq_append_iff.mp hk' with ⟨rfl, hturn⟩ | ⟨k', rfl, -⟩
            · exact absurd (List.cons.inj hturn).1 (by simp)
            · exact absurd rfl (hd (.turn i .driven) (by simp))
      | _ => exact absurd hm (by simp [Entry.Moves])
    · rw [(after_unmoved hm _).1]
      exact hrest

end Record

/-- Started, and not driven, ended or restored since, a sequence runs and is in front of its first
step. -/
theorem Stage.begun_since_start {u : Stage} {id c : Nat} {m j : List Entry}
    (hrecord : (u.sequence id).record = Record.replay id u.journal {})
    (hstands : ∀ l e j, u.journal = l ++ e :: j → e.Stands u l j)
    (hm : u.journal = m ++ .moved id .started c :: j) (hdriven : ∀ e ∈ m, e ≠ .turn id .driven)
    (hends : ∀ name hook b, hook ≠ .started → .notified id name hook b ∉ m)
    (hrestored : ∀ i c', .moved id (.restored i) c' ∉ m) :
    (u.sequence id).current = 0 ∧ (u.sequence id).entered = false ∧
      (u.sequence id).running = true := by
  rw [hm] at hrecord
  refine ⟨?_, ?_, ?_⟩
  · exact (congrArg Record.current hrecord).trans
      (Record.current_started [] (by rw [List.nil_append, ← hm]; exact hstands) hdriven hrestored)
  · rw [Record.replay_append] at hrecord
    refine (congrArg Record.entered hrecord).trans (Record.replay_not_entered hdriven ?_)
    simp [Record.after]
  · rw [Record.replay_append] at hrecord
    refine (congrArg Record.running hrecord).trans (Record.running_untold hends ?_)
    obtain ⟨-, j', hj'⟩ := hstands m _ _ hm
    rw [hj']
    simp [Record.after]

/-- The turn of the member `id` in a frame from `s` to `t`, after those of the members `before`
and before those of the members `after`. It comes on the stage `u` and is over on the stage `v`,
and in between the entries `l` are added, besides the turn itself. -/
structure MemberTurn (run : Runner) (dt : Float32) (s t : Stage) (before : List Nat) (id : Nat)
    (after : List Nat) (u v : Stage) (l : List Entry) : Prop where
  comes : Conductor.takeTurns run dt before s = (.ok (), u)
  turn : Conductor.takeTurn run dt id u = (.ok (), v)
  rest : Conductor.takeTurns run dt after v = (.ok (), t)
  journal : v.journal = l ++ .turn id (u.turnOf id) :: u.journal
  goes : TurnGoes dt u id l
  driven : (∃ e ∈ l, e.Drives id) ↔ u.Due id
  /-- Whatever becomes of it, it is not driven before its turn and not after it. -/
  once : (∀ e ∈ s.newEntries u, ¬ e.Drives id) ∧ ∀ e ∈ v.newEntries t, ¬ e.Drives id
  /-- Started before its turn came, and not ended or restored or paused since, it goes on from
  its first step, which is entered. -/
  restarted : ∀ m c n, u.journal = m ++ .moved id .started c :: (n ++ s.journal) →
    (∀ name hook b, hook ≠ .started → .notified id name hook b ∉ m) →
    (∀ i c', .moved id (.restored i) c' ∉ m) → (u.sequence id).paused = false →
    0 < (u.sequence id).stepCount →
    (∃ l' n', l = l' ++ .called (.top id 0) .enter :: n' ∧ ∀ e ∈ n', ∃ m, e = .notice m) ∧
      .called (.top id 0) (.tick dt) ∈ l
  /-- Stopped before its turn came, and not set running since, it is passed over. -/
  stopped : ∀ m name b n, u.journal = m ++ .notified id name .stopped b :: (n ++ s.journal) →
    (∀ e ∈ m, ¬ e.Begins id) → l = []
  removed : ¬ u.Registered id → l = []
  paused : (u.sequence id).paused = true → l = []

namespace Conductor

variable {calm : Bool} {settings : Settings} {host : Host} {run : Runner} {dt : Float32}
  {s t : Stage}

/-- The turn of a member, if only the members take turns and are driven. -/
theorem member_turn_of_rounds (h : Session calm (.opening settings host) s)
    (hrun : run.Follows) {before after : List Nat} {id : Nat} {u v : Stage}
    (hnodup : (before ++ id :: after).Nodup) (hu : takeTurns run dt before s = (.ok (), u))
    (hv : takeTurn run dt id u = (.ok (), v)) (hvt : takeTurns run dt after v = (.ok (), t))
    (hbefore : Rounds before s u) (hafter : Rounds after v t) :
    ∃ l, MemberTurn run dt s t before id after u v l := by
  have hsu := takeTurns_leads hrun hu
  have hleads : Leads Nowhere calm (.opening settings host) u := by
    have hl := h.leads.trans hsu
    rwa [show (Except.ok () : Except Halt Unit).isOk = true from rfl, Bool.and_true] at hl
  have hsound := Stage.opening_sound settings host
  have hb : (u.sequence id).ticking = false := (hleads.lasts hsound).2.ticking id
  obtain ⟨l, hl, hgoes⟩ := takeTurn_goes hrun hb hv
  obtain ⟨lb, hlb, hturns, hdb⟩ := hbefore
  obtain ⟨la, hla, -, hda⟩ := hafter
  obtain ⟨hib, hia⟩ : id ∉ before ∧ id ∉ after := by
    have hnd := List.nodup_append.mp hnodup
    refine ⟨fun hid => hnd.2.2 id hid id List.mem_cons_self rfl, ?_⟩
    exact (List.nodup_cons.mp hnd.2.1).1
  have hnoturn : ∀ e ∈ lb, e ≠ .turn id .driven := by
    rintro e he rfl
    apply hib
    rw [← hturns]
    exact List.mem_filterMap.mpr ⟨_, List.mem_reverse.mpr he, rfl⟩
  have hrecord := (hleads.tells hsound).tracked (Stage.opening_tracked settings host) id
  have hstands : ∀ l e j, u.journal = l ++ e :: j → e.Stands u l j :=
    hleads.course.stands
  refine ⟨l, hu, hv, hvt, hl, hgoes, hgoes.driven_iff, ⟨?_, ?_⟩, ?_, ?_, ?_, ?_⟩
  · intro e he hd
    rw [Stage.newEntries_of_append hlb] at he
    exact hib (hdb e (List.mem_reverse.mp he) id hd)
  · intro e he hd
    rw [Stage.newEntries_of_append hla] at he
    exact hia (hda e (List.mem_reverse.mp he) id hd)
  · intro m c n hm hends hrestored hp hcount
    have hmd : ∀ e ∈ m, e ≠ .turn id .driven := by
      intro e he
      apply hnoturn
      rw [hlb, ← List.cons_append, ← List.append_assoc] at hm
      rw [List.append_cancel_right hm]
      simp [he]
    obtain ⟨hcurrent, hentered, hrunning⟩ :=
      Stage.begun_since_start hrecord hstands hm hmd hends hrestored
    obtain ⟨⟨l', call, n', hcalls, hn, hcall⟩, hticked⟩ :=
      hgoes.driven ⟨hp, hrunning⟩ (by omega)
    rw [hcall.mpr hentered] at hcalls
    rw [hcurrent] at hcalls hticked
    exact ⟨⟨l', n', hcalls, hn⟩, hticked⟩
  · intro m name b n hm hbegins
    refine hgoes.passed fun hd => ?_
    rw [hm, Record.replay_append] at hrecord
    have hidle : (u.sequence id).running = false := by
      refine (congrArg Record.running hrecord).trans (Record.idle_replay hbegins ?_)
      simp [Record.after]
    exact absurd (hd.running.symm.trans hidle) (by simp)
  · intro hreg
    refine hgoes.passed fun hd => hreg ?_
    exact hleads.enrolled hsound (Stage.opening_enrolled settings host) id hd.running
  · intro hp
    refine hgoes.passed fun hd => ?_
    exact absurd (hd.unpaused.symm.trans hp) (by simp)

end Conductor

end Sequencer
