import Sequencer.Proofs.LeftAlone
import Sequencer.Proofs.Rendezvous
import Sequencer.Proofs.Turns

/-!
# A step that panics stays local

A frame stops where a step in it panics. The turns before are over as if nothing had happened, the
turns after do not come, and the stage is left as it was at that moment, but that the step comes
back to its sequence. Unless somebody operated on it, the sequence runs on at the step, and the
next frame ticks that step again.
-/

set_option autoImplicit false

namespace Sequencer

open Site (Nowhere Within)

namespace Conductor

variable {run : Runner} {dt : Float32} {id : Nat} {ids before after : List Nat} {s t u v : Stage}
  {e : Halt}

def undivided (run : Runner) (dt : Float32) : List Nat → Stage → Bool
  | [], _ => true
  | id :: rest, s =>
    let r := takeTurn run dt id s
    (s.newEntries r.2).filterMap Entry.turnId? == [id] && (!r.1.isOk || undivided run dt rest r.2)

/-! The turns up to a panic -/

theorem takeTurn_rounds (hrun : run.Follows) {r : Except Halt Unit}
    (h : takeTurn run dt id u = (r, v))
    (hturns : (u.newEntries v).filterMap Entry.turnId? = [id]) : Rounds [id] u v := by
  obtain ⟨l, hl, hdrives⟩ := (takeTurn_leads hrun h).byTurns
  rw [Stage.newEntries_of_append hl] at hturns
  refine ⟨l, hl, hturns, fun e he i hi => ?_⟩
  rcases hdrives e he i hi with ⟨τ, hτ⟩ | ⟨σ, hσ, -⟩
  · rw [← hturns]
    exact List.mem_filterMap.mpr ⟨_, List.mem_reverse.mpr hτ, rfl⟩
  · exact absurd hσ fun h => h

theorem Rounds.trans {ids' : List Nat} (h : Rounds ids s t) (h' : Rounds ids' t u) :
    Rounds (ids ++ ids') s u := by
  obtain ⟨l, hl, hids, hd⟩ := h
  obtain ⟨l', hl', hids', hd'⟩ := h'
  refine ⟨l' ++ l, by rw [hl', hl, List.append_assoc], ?_, fun e he id hid => ?_⟩
  · rw [List.reverse_append, List.filterMap_append, hids, hids']
  · rcases List.mem_append.mp he with he | he
    · exact List.mem_append_right _ (hd' e he id hid)
    · exact List.mem_append_left _ (hd e he id hid)

theorem Rounds.turns (h : Rounds ids s t) : (s.newEntries t).filterMap Entry.turnId? = ids := by
  obtain ⟨l, hl, hids, -⟩ := h
  rw [Stage.newEntries_of_append hl]
  exact hids

/-- The turn of a member of a list in which no turn is taken within another. -/
theorem undivided_turn (hun : undivided run dt (before ++ id :: after) s = true)
    (hu : takeTurns run dt before s = (.ok (), u)) :
    undivided run dt before s = true ∧
    (u.newEntries (takeTurn run dt id u).2).filterMap Entry.turnId? = [id] ∧
    (takeTurn run dt id u = (.ok (), v) → undivided run dt after v = true) := by
  induction before generalizing s with
  | nil =>
    obtain ⟨-, rfl⟩ := Prod.mk.inj (show (Except.ok (), s) = (.ok (), u) from hu)
    obtain ⟨hturns, hrest⟩ := (Bool.and_eq_true _ _).mp hun
    refine ⟨rfl, by simpa using hturns, fun hv => ?_⟩
    rw [hv] at hrest
    simpa [Except.isOk, Except.toBool] using hrest
  | cons i rest ih =>
    rw [takeTurns, Act.bind_apply] at hu
    obtain ⟨hturns, hrest⟩ := (Bool.and_eq_true _ _).mp hun
    rcases hw : takeTurn run dt i s with ⟨e | a, w⟩ <;> rw [hw] at hu
    · exact absurd (congrArg Prod.fst hu) (by simp)
    rw [hw] at hturns hrest
    obtain ⟨hfirst, hmember⟩ := ih (by simpa [Except.isOk, Except.toBool] using hrest) hu
    refine ⟨?_, hmember⟩
    simp only [undivided, hw, hturns, hfirst]
    simp

theorem takeTurns_rounds (hrun : run.Follows) (hun : undivided run dt ids s = true)
    (h : takeTurns run dt ids s = (.ok (), t)) : Rounds ids s t := by
  induction ids generalizing s with
  | nil =>
    obtain ⟨-, rfl⟩ := Prod.mk.inj (show (Except.ok (), s) = (.ok (), t) from h)
    exact ⟨[], rfl, rfl, by simp⟩
  | cons id rest ih =>
    rw [takeTurns, Act.bind_apply] at h
    obtain ⟨hturns, hrest⟩ := (Bool.and_eq_true _ _).mp hun
    rcases hv : takeTurn run dt id s with ⟨e | a, v⟩ <;> rw [hv] at h
    · exact absurd (congrArg Prod.fst h) (by simp)
    rw [hv] at hturns hrest
    have hfirst : Rounds [id] s v := takeTurn_rounds hrun hv (by simpa using hturns)
    exact hfirst.trans (ih (by simpa [Except.isOk, Except.toBool] using hrest) h)

/-- A frame that halts does so in the turn of one of its members. -/
theorem takeTurns_halts (h : takeTurns run dt ids s = (.error e, t)) :
    ∃ before id after u, ids = before ++ id :: after ∧
      takeTurns run dt before s = (.ok (), u) ∧ takeTurn run dt id u = (.error e, t) := by
  induction ids generalizing s with
  | nil => exact absurd (congrArg Prod.fst (show (Except.ok (), s) = (.error e, t) from h)) (by simp)
  | cons id rest ih =>
    rw [takeTurns, Act.bind_apply] at h
    rcases hv : takeTurn run dt id s with ⟨e' | a, v⟩ <;> rw [hv] at h
    · obtain ⟨he, rfl⟩ := Prod.mk.inj h
      obtain rfl := Except.error.inj he
      exact ⟨[], id, rest, s, rfl, rfl, hv⟩
    · obtain ⟨before, i, after, u, rfl, hu, ht⟩ := ih h
      refine ⟨id :: before, i, after, u, rfl, ?_, ht⟩
      rw [takeTurns, Act.bind_apply, hv]
      exact hu

/-- Whoever stands behind a member that halts is not looked at. -/
theorem takeTurns_of_halt (hu : takeTurns run dt before s = (.ok (), u))
    (ht : takeTurn run dt id u = (.error e, t)) (l : List Nat) :
    takeTurns run dt (before ++ id :: l) s = (.error e, t) := by
  rw [takeTurns_append hu, takeTurns, Act.bind_apply, ht]

end Conductor

structure BrokenTurn (run : Runner) (dt : Float32) (u : Stage) (id : Nat) (e : Halt) (part : Part)
    (p : part.step.Progress) (w t : Stage) : Prop where
  due : u.Due id
  cursor : (u.sequence id).parts[(u.sequence id).current]? = some part
  play : Conductor.playPart run dt id (u.sequence id) part (part.progress, u.lending id) =
    (.error e, p, w)
  stays : t = w.returning id (u.sequence id).current ⟨part.step, p⟩

namespace Conductor

variable {run : Runner} {dt : Float32} {id : Nat} {t u : Stage} {e : Halt}

/-- A turn halts out of the callback of a completion or out of a step. -/
theorem takeTurn_halts (hb : (u.sequence id).ticking = false)
    (h : takeTurn run dt id u = (.error e, t)) :
    u.turnOf id = .completed ∨ u.turnOf id = .driven ∧ ∃ part p w,
      BrokenTurn run dt u id e part p w t := by
  have hp : (u.sequence id).paused = false := by
    refine Bool.eq_false_iff.mpr fun hp => ?_
    rw [takeTurn_paused hp] at h
    exact absurd (congrArg Prod.fst h) (by simp)
  have hr : (u.sequence id).running = true := by
    by_cases hr : (u.sequence id).running = true
    · exact hr
    · rw [takeTurn_unpaused hp, turn_idle (by simpa using hr)] at h
      exact absurd (congrArg Prod.fst h) (by simp)
  have hd : u.Due id := ⟨hp, hr⟩
  by_cases hc : (u.sequence id).stepCount ≤ (u.sequence id).current
  · exact .inl (u.turnOf_completed hd hc)
  have hc : (u.sequence id).current < (u.sequence id).stepCount := by omega
  have hpart := List.getElem?_eq_getElem (l := (u.sequence id).parts) hc
  generalize (u.sequence id).parts[(u.sequence id).current] = part at hpart
  rcases hplay : playPart run dt id (u.sequence id) part (part.progress, u.lending id) with ⟨r, p, w⟩
  rw [takeTurn_driven hd hpart hb hplay] at h
  cases r with
  | ok status => exact absurd (congrArg Prod.fst h) (by simp [Except.map])
  | error e' =>
    obtain ⟨he, rfl⟩ := Prod.mk.inj h
    obtain rfl := Except.error.inj he
    exact .inr ⟨u.turnOf_driven hd hc hb, part, p, w, hd, hpart, hplay, rfl⟩

/-- A step that counts as entered is ticked in its turn and not entered. -/
theorem takeTurn_ticks (hrun : run.Follows) (hd : u.Due id)
    (hc : (u.sequence id).current < (u.sequence id).stepCount)
    (hb : (u.sequence id).ticking = false) (hentered : (u.sequence id).entered = true) :
    ∃ l, (takeTurn run dt id u).2.journal =
      l ++ .called (.top id (u.sequence id).current) (.tick dt) :: .turn id .driven :: u.journal := by
  have hpart := List.getElem?_eq_getElem (l := (u.sequence id).parts) hc
  generalize (u.sequence id).parts[(u.sequence id).current] = part at hpart
  rcases hplay : playPart run dt id (u.sequence id) part (part.progress, u.lending id) with ⟨r, p, w⟩
  obtain ⟨l, hl, hdriven⟩ := playPart_driven hrun hplay
  rw [hentered] at hdriven
  obtain ⟨l, rfl⟩ := hdriven.first_tick
  obtain ⟨l', hl'⟩ := w.journal_afterPlay id (u.sequence id) ⟨part.step, p⟩ r
  refine ⟨l' ++ l, ?_⟩
  have hback : (takeTurn run dt id u).2.journal =
      (w.afterPlay id (u.sequence id) ⟨part.step, p⟩ r).journal := by
    rw [takeTurn_driven hd hpart hb hplay]
    dsimp only
    split
    · exact Stage.journal_sweep _ id
    · rfl
  rw [hback, hl', show w.journal = _ from hl]
  simp [Stage.journal_lending]

end Conductor

/-! The sequence whose step panicked -/

structure Stage.Poised (s : Stage) (id index : Nat) : Prop where
  listed : id ∈ s.active
  registered : s.Registered id
  running : (s.sequence id).running = true
  free : (s.sequence id).ticking = false
  current : (s.sequence id).current = index
  there : index < (s.sequence id).stepCount
  entered : (s.sequence id).entered = true

namespace Stage.Poised

variable {s t u : Stage} {id index : Nat} {run : Runner} {dt : Float32}

/-- It stays so as long as it is left alone. -/
theorem later (h : s.Poised id index) {own : Site → Prop} {calm : Bool} (hl : Leads own calm s t)
    (hs : s.Sound) (he : s.Enrolled) (ha : LeftAlone id s t) : t.Poised id index := by
  have hon := (hl.tells hs).goesOn ha
  have hrun : (t.sequence id).running = true := hon.running.trans h.running
  have hlast := (hl.lasts hs).2
  constructor
  · exact hl.listed hs (ha.mono fun e hne hends => hne (.inr (.inl hends))) h.running h.listed
  · exact hl.enrolled hs he id hrun
  · exact hrun
  · exact (hlast.ticking id).trans h.free
  · exact hon.current.trans h.current
  · rw [(Wider.of_extends hlast).stepCount id (s.lt_of_running h.running)]
    exact h.there
  · exact hon.entered h.entered

/-- In its turn the step is ticked, and not entered. -/
theorem turn (h : s.Poised id index) (hrun : run.Follows) (hp : (s.sequence id).paused = false)
    (dt : Float32) : ∃ l, (Conductor.takeTurn run dt id s).2.journal =
      l ++ .called (.top id index) (.tick dt) :: .turn id .driven :: s.journal := by
  obtain rfl := h.current
  exact Conductor.takeTurn_ticks hrun ⟨hp, h.running⟩ h.there h.free h.entered

/-- A frame comes to it in its place in the list. -/
theorem frame (h : u.Poised id index) (hrun : run.Follows) {before after : List Nat}
    (hactive : s.active = before ++ id :: after)
    (hu : Conductor.takeTurns run dt before s = (.ok (), u))
    (hp : (u.sequence id).paused = false) : ∃ l, (Conductor.tick run dt s).2.journal =
      l ++ .called (.top id index) (.tick dt) :: .turn id .driven :: u.journal := by
  have htick : Conductor.tick run dt s = Conductor.takeTurns run dt (id :: after) u := by
    rw [← Conductor.takeTurns_append hu, ← hactive]
    rfl
  obtain ⟨l, hl⟩ := h.turn hrun hp dt
  rw [htick, Conductor.takeTurns, Act.bind_apply]
  rcases hv : Conductor.takeTurn run dt id u with ⟨e | a, v⟩ <;> rw [hv] at hl
  · exact ⟨l, hl⟩
  · have hrest : (Conductor.takeTurns run dt after).Follows Nowhere :=
      Conductor.takeTurns_follows hrun dt after
    obtain ⟨l', hl'⟩ := (hrest v).course.grows
    refine ⟨l' ++ l, ?_⟩
    rw [List.append_assoc, ← hl]
    exact hl'

end Stage.Poised

namespace BrokenTurn

variable {run : Runner} {dt : Float32} {s t u w : Stage} {id : Nat} {e : Halt} {part : Part}
  {p : part.step.Progress}

theorem drive (h : BrokenTurn run dt u id e part p w t) (hrun : run.Follows)
    (hb : (u.sequence id).ticking = false) : Drive run dt u id part (.error e) p w := by
  have hl := Conductor.playPart_follows hrun dt id (u.sequence id) part (part.progress, u.lending id)
  rw [h.play] at hl
  exact ⟨h.due, hb, h.cursor, hrun, h.play, hl⟩

theorem leads (h : BrokenTurn run dt u id e part p w t) (hrun : run.Follows)
    (hb : (u.sequence id).ticking = false) : Leads Nowhere false u t := by
  have hd := h.drive hrun hb
  rw [h.stays]
  exact .driven run dt hd.due hd.free hd.cursor hd.callbacks hd.play hd.leads

/-- Nothing is undone and nothing else is done. -/
theorem same (h : BrokenTurn run dt u id e part p w t) :
    t.registry = w.registry ∧ t.active = w.active ∧ t.barriers = w.barriers ∧
    t.journal = w.journal ∧ ∀ i, (t.sequence i).running = (w.sequence i).running := by
  rw [h.stays]
  exact ⟨rfl, rfl, rfl, rfl,
    fun i => w.running_afterPlay id (u.sequence id) ⟨part.step, p⟩ (.error e) i⟩

/-- Unless somebody operated on it, the sequence goes on where its step panicked. -/
theorem poised (h : BrokenTurn run dt u id e part p w t) (hrun : run.Follows)
    (hb : (u.sequence id).ticking = false) (hs : u.Sound) (he : u.Enrolled)
    (hid : id ∈ u.active) (ha : LeftAlone id u t) : t.Poised id (u.sequence id).current := by
  have hl := h.leads hrun hb
  have hlast := (hl.lasts hs).2
  have hon := (hl.tells hs).goesOn ha
  have hrunning : (t.sequence id).running = true := hon.running.trans h.due.running
  have hentered : (t.sequence id).entered = true := by
    obtain ⟨l, hj, -, hrecord⟩ := (h.drive hrun hb).notes hs
    have hback : (t.sequence id).record = (w.sequence id).record := by
      rw [h.stays]
      apply w.field_modify Sequence.record
      exact fun _ => rfl
    have hsince : ∀ e ∈ l, ¬ e.Handles id := by
      have hall := ha.of_append (l := l ++ [.turn id .driven]) (by rw [h.same.2.2.2.1, hj]; simp)
      exact fun e he => hall e (List.mem_append_left _ he)
    have hkept := (Record.replay_unhandled hsince
      { (u.sequence id).record with entered := true }).entered rfl
    rw [← hrecord, ← hback] at hkept
    exact hkept
  constructor
  · exact hl.listed hs (ha.mono fun e hne hends => hne (.inr (.inl hends))) h.due.running hid
  · exact hl.enrolled hs he id hrunning
  · exact hrunning
  · exact (hlast.ticking id).trans hb
  · exact hon.current
  · rw [(Wider.of_extends hlast).stepCount id (u.lt_of_running h.due.running)]
    exact (List.getElem?_eq_some_iff.mp h.cursor).1
  · exact hentered

end BrokenTurn

/-- Where a frame halts that takes no turn within another: in the turn of a member `id`, which comes
on the stage `u`. -/
structure BrokenFrame (run : Runner) (dt : Float32) (s t : Stage) (e : Halt) (before : List Nat)
    (id : Nat) (after : List Nat) (u : Stage) : Prop where
  members : s.active = before ++ id :: after
  comes : Conductor.takeTurns run dt before s = (.ok (), u)
  turn : Conductor.takeTurn run dt id u = (.error e, t)
  /-- The members before it have had their turns, as in a frame that comes to its end. -/
  earlier : ∀ b m a, before = b ++ m :: a → ∃ u' v l, MemberTurn run dt s u b m a u' v l
  /-- Nobody else has had a turn. -/
  turns : (s.newEntries t).filterMap Entry.turnId? = before ++ [id]
  /-- Whoever stands behind it makes no difference. -/
  later : ∀ l, Conductor.takeTurns run dt (before ++ id :: l) s = (.error e, t)

theorem broken_frame {calm : Bool} {settings : Settings} {host : Host} {s t : Stage}
    (h : Session calm (.opening settings host) s) {run : Runner} {dt : Float32} {e : Halt}
    (hrun : run.Follows) (undivided : Conductor.undivided run dt s.active s = true)
    (ht : Conductor.tick run dt s = (.error e, t)) :
    ∃ before id after u, BrokenFrame run dt s t e before id after u := by
  obtain ⟨before, id, after, u, hactive, hu, hturn⟩ := Conductor.takeTurns_halts ht
  have hactive : s.active = before ++ id :: after := hactive
  have hnodup := h.rolls.nodup List.nodup_nil
  rw [hactive] at hnodup undivided
  obtain ⟨hfirst, hself, -⟩ := Conductor.undivided_turn (v := t) undivided hu
  rw [hturn] at hself
  refine ⟨before, id, after, u, hactive, hu, hturn, ?_, ?_, Conductor.takeTurns_of_halt hu hturn⟩
  · rintro b m a rfl
    obtain ⟨u', v, hu', hv, hvu⟩ := Conductor.takeTurns_split hu
    obtain ⟨hb, -, ha⟩ := Conductor.undivided_turn (v := v) hfirst hu'
    obtain ⟨l, hmember⟩ := Conductor.member_turn_of_rounds h hrun (List.nodup_append.mp hnodup).1
      hu' hv hvu (Conductor.takeTurns_rounds hrun hb hu') (Conductor.takeTurns_rounds hrun (ha hv) hvu)
    exact ⟨u', v, l, hmember⟩
  · exact ((Conductor.takeTurns_rounds hrun hfirst hu).trans
      (Conductor.takeTurn_rounds hrun hturn hself)).turns

/-- What a panic in the turn of `id` leaves of a frame from `s`: the turn comes on the stage `u`,
the step panics on the stage `w`, and the frame ends on the stage `t`. -/
structure LocalPanic (run : Runner) (dt : Float32) (s u : Stage) (id : Nat) (e : Halt) (part : Part)
    (p : part.step.Progress) (w t : Stage) : Prop where
  turn : u.turnOf id = .driven
  broken : BrokenTurn run dt u id e part p w t
  /-- Nothing is undone that was done before the panic, and nothing else is done. -/
  same : t.registry = w.registry ∧ t.active = w.active ∧ t.barriers = w.barriers ∧
    t.journal = w.journal ∧ ∀ i, (t.sequence i).running = (w.sequence i).running
  /-- The flags and cursors are those that the entries of the frame tell. -/
  told : ∀ i, (t.sequence i).record =
    Record.replay i (s.newEntries t).reverse (s.sequence i).record
  /-- Every arrival counts that the journal tells, and no other. -/
  counts : ∀ name, (t.barriers.count name).toNat = min (arrivals name t.journal) 4294967295
  free : (t.sequence id).ticking = false
  /-- Unless somebody operated on it in this frame, the sequence goes on where its step panicked. -/
  poised : LeftAlone id s t → t.Poised id (u.sequence id).current
  /-- It does until somebody operates on it, -/
  later : LeftAlone id s t → ∀ calm x, Session calm t x → LeftAlone id t x →
    x.Poised id (u.sequence id).current
  /-- and the next frame in which it is not paused ticks the step, and does not enter it. -/
  next : LeftAlone id s t → ∀ calm x, Session calm t x → LeftAlone id t x →
    ∀ (run' : Runner) (dt' : Float32) (before after : List Nat) (v : Stage),
      (∀ c u, Session (run' c u).1.isOk u (run' c u).2) → x.active = before ++ id :: after →
      Conductor.takeTurns run' dt' before x = (.ok (), v) → LeftAlone id x v →
      (v.sequence id).paused = false →
      ∃ l, (Conductor.tick run' dt' x).2.journal =
        l ++ .called (.top id (u.sequence id).current) (.tick dt') :: .turn id .driven :: v.journal

theorem BrokenTurn.local {calm : Bool} {settings : Settings} {host : Host} {s t u w : Stage}
    {run : Runner} {dt : Float32} {id : Nat} {e : Halt} {part : Part} {p : part.step.Progress}
    (hbroken : BrokenTurn run dt u id e part p w t) (h : Session calm (.opening settings host) s)
    {calm' : Bool} (ht : Session calm' (.opening settings host) t) (hrun : run.Follows)
    (hsu : Leads Nowhere true s u) (hid : id ∈ s.active) (hturn : u.turnOf id = .driven) :
    LocalPanic run dt s u id e part p w t := by
  have henrolled : ∀ {c x}, Session c (.opening settings host) x → x.Enrolled := fun hx =>
    hx.leads.enrolled (Stage.opening_sound settings host) (Stage.opening_enrolled settings host)
  have hus := (hsu.lasts h.sound).1
  have hb : (u.sequence id).ticking = false :=
    ((hsu.lasts h.sound).2.ticking id).trans (h.resting id)
  have hut := hbroken.leads hrun hb
  have hpoised : LeftAlone id s t → t.Poised id (u.sequence id).current := by
    intro ha
    obtain ⟨hasu, haut⟩ := ha.split hsu.course.grows hut.course.grows
    have hrunning := (hsu.tells h.sound).ran hasu hbroken.due.running
    have hlisted := hsu.listed h.sound (hasu.mono fun e hne hends => hne (.inr (.inl hends)))
      hrunning hid
    exact hbroken.poised hrun hb hus (hsu.enrolled h.sound (henrolled h)) hlisted haut
  have hlater : LeftAlone id s t → ∀ calm x, Session calm t x → LeftAlone id t x →
      x.Poised id (u.sequence id).current :=
    fun ha _ _ hx hax => (hpoised ha).later hx.leads ht.sound (henrolled ht) hax
  refine ⟨hturn, hbroken, hbroken.same, fun i => ?_, ht.counted, ht.resting id, hpoised, hlater, ?_⟩
  · obtain ⟨l, hl, hrecord⟩ := (hsu.tells h.sound).trans (hut.tells hus)
    rw [hrecord i, Stage.newEntries_of_append hl, List.reverse_reverse]
  · intro ha calm x hx hax run' dt' before after v callbacks' hactive hv hav hp
    have hrun' : run'.Follows := fun c u => (callbacks' c u).leads
    have hxv := Conductor.takeTurns_leads hrun' hv
    have hxs := ht.trans hx
    exact ((hlater ha calm x hx hax).later hxv hxs.sound (henrolled hxs) hav).frame hrun' hactive hv
      hp

/-- Where a frame panics that takes no turn within another. The members before had their turns as in
any other frame, and those behind had none. It panics out of the callback of a completion or out of
a step, and then the panic stays local: the stage is left as it was at that moment, and unless
somebody operated on it, the sequence goes on in the next frame with the step that panicked. -/
theorem panic_stays_local {calm : Bool} {settings : Settings} {host : Host} {s t : Stage}
    (h : Session calm (.opening settings host) s) {run : Runner} {dt : Float32} {e : Halt}
    (callbacks : ∀ c u, Session (run c u).1.isOk u (run c u).2)
    (undivided : Conductor.undivided run dt s.active s = true)
    (ht : Conductor.tick run dt s = (.error e, t)) :
    ∃ before id after u, BrokenFrame run dt s t e before id after u ∧
      (u.turnOf id = .completed ∨ ∃ part p w, LocalPanic run dt s u id e part p w t) := by
  have hrun : run.Follows := fun c u => (callbacks c u).leads
  obtain ⟨before, id, after, u, hframe⟩ := broken_frame h hrun undivided ht
  refine ⟨before, id, after, u, hframe, ?_⟩
  have hsu := Conductor.takeTurns_leads hrun hframe.comes
  have hb : (u.sequence id).ticking = false :=
    ((hsu.lasts h.sound).2.ticking id).trans (h.resting id)
  have hid : id ∈ s.active := by
    rw [hframe.members]
    simp
  have hstage : (dispatch run (.tick dt none) s).2 = t := by
    show ((Conductor.tick run dt >>= fun _ => pure Reply.nothing : Act Reply) s).2 = t
    rw [Act.bind_apply, ht]
  have hsession := h.command run (.tick dt none) callbacks
  rw [hstage] at hsession
  rcases Conductor.takeTurn_halts hb hframe.turn with hdone | ⟨hdriven, part, p, w, hbroken⟩
  · exact .inl hdone
  · exact .inr ⟨part, p, w, hbroken.local h hsession hrun hsu hid hdriven⟩

def Halt.panickedWith (m : String) : Except Halt Unit → Bool
  | .error (.panic m') => m' == m
  | _ => false

theorem Act.eq_of_panickedWith {act : Act Unit} {s : Stage} {m : String}
    (h : Halt.panickedWith m (act s).1 = true) : act s = (.error (.panic m), (act s).2) := by
  rcases hr : act s with ⟨e | a, t⟩ <;> rw [hr] at h
  · cases e with
    | panic m' => rw [show m' = m by simpa [Halt.panickedWith] using h]
    | tooDeep => exact absurd h (by simp [Halt.panickedWith])
  · exact absurd h (by simp [Halt.panickedWith])

/-- A condition panics in a step of a group. The member before it has had its turn, the one behind
it none, and the sequence is poised at the group. -/
theorem panic_stays_local_in_group :
    let b : Outline Command :=
      { name := "b", steps := [.group [.await { test := .panic "p" } none .succeed]] }
    let l : List Command := [.register { name := "a", steps := [.wait 5] }, .register b,
      .register { name := "c", steps := [.wait 5] }, .start "a", .start "b", .start "c"]
    let s := ((Stage.opening {} {}).run false l).2
    let t := (Conductor.tick (perform 1) 1 s).2
    Session true (.opening {} {}) s ∧ Conductor.undivided (perform 1) 1 s.active s = true ∧
      Conductor.tick (perform 1) 1 s = (.error (.panic "p"), t) ∧
      s.active = [0] ++ 1 :: [2] ∧ (s.newEntries t).filterMap Entry.turnId? = [0] ++ [1] ∧
      t.Poised 1 0 := by
  intro b l s t
  have hcalm : (Stage.opening {} {}).calmly l = true := by decide +kernel
  have h : Session true (.opening {} {}) s := hcalm ▸ Session.run false l (.opening {} {})
  have hun : Conductor.undivided (perform 1) 1 s.active s = true := by decide +kernel
  have hpanicked : Halt.panickedWith "p" (Conductor.tick (perform 1) 1 s).1 = true := by
    decide +kernel
  have ht : Conductor.tick (perform 1) 1 s = (.error (.panic "p"), t) :=
    Act.eq_of_panickedWith hpanicked
  have hrun : (perform 1).Follows := fun c u => (Session.perform 1 c u).leads
  have hactive : s.active = [0, 1, 2] := by decide +kernel
  have hturns : (s.newEntries t).filterMap Entry.turnId? = [0, 1] := by decide +kernel
  obtain ⟨before, id, after, u, hframe, hpanic⟩ :=
    panic_stays_local h (Session.perform 1) hun ht
  obtain ⟨rfl, rfl⟩ : before = [0] ∧ id = 1 := by
    have heq : before ++ [id] = [0] ++ [1] := hframe.turns.symm.trans hturns
    obtain ⟨hbefore, hid⟩ := List.append_inj' heq rfl
    exact ⟨hbefore, by simpa using hid⟩
  have hu : u = (Conductor.takeTurns (perform 1) 1 [0] s).2 :=
    (congrArg Prod.snd hframe.comes).symm
  have hdriven : u.turnOf 1 = .driven := by
    rw [hu]
    decide +kernel
  have hcurrent : (u.sequence 1).current = 0 := by
    rw [hu]
    decide +kernel
  have halone : LeftAlone 1 s t := by
    have hquiet : (s.newEntries t).all (fun e => match e with
        | .turn .. | .called .. | .returned .. | .drove .. => true
        | _ => false) = true := by decide +kernel
    have hst : Leads Nowhere _ s t := Conductor.tick_follows hrun 1 s
    refine .of_newEntries hst.course.grows fun e he => ?_
    have hkind := List.all_eq_true.mp hquiet e he
    cases e <;> simp_all [Entry.Handles, Entry.Begins, Entry.Ends, Entry.Moves]
  rcases hpanic with hdone | ⟨part, p, w, hlocal⟩
  · rw [hdriven] at hdone
    exact absurd hdone (by simp)
  · have hpoised := hlocal.poised halone
    rw [hcurrent] at hpoised
    exact ⟨h, hun, ht, hactive, hturns, hpoised⟩

end Sequencer
