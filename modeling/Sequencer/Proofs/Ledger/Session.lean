import Sequencer.Proofs.Ledger.Steps

/-!
# The books through sessions

A frame lends the step at a cursor to a play and takes it back, and so does the host with the
steps in its hands. A command obeys a ledger if the callbacks behind it do, and a frame if the
ledger lets turns pass; so whole sessions do.
-/

set_option autoImplicit false

namespace Sequencer

def Command.isTick : Command → Bool
  | .tick _ _ => true
  | _ => false

def LetsTurns (R : Bool → Stage → Stage → Prop) : Prop :=
  ∀ (s : Stage) (id : Nat) (τ : Turn), R true s (s.note (.turn id τ))

theorem Table.get?_of_put {κ α : Type} [DecidableEq κ] {t : Table κ α} {k j : κ} {v w : α}
    (h : (t.put k v).get? j = some w) : w = v ∨ t.get? j = some w := by
  by_cases hj : j = k
  · subst hj
    rw [Table.get?_put_self] at h
    exact .inl (Option.some.inj h).symm
  · rw [Table.get?_put_ne _ _ hj] at h
    exact .inr h

theorem Table.get?_of_erase {κ α : Type} [DecidableEq κ] {t : Table κ α} {k j : κ} {w : α}
    (h : (t.erase k).get? j = some w) : t.get? j = some w := by
  by_cases hj : j = k
  · subst hj
    rw [Table.get?_erase_self] at h
    exact absurd h (by simp)
  · rwa [Table.get?_erase_ne _ hj] at h

theorem Stage.Holds.note {B : BarrierFact} {s : Stage} (h : s.Holds B) (e : Entry) :
    (s.note e).Holds B := ⟨h.sequences, h.held⟩

namespace Stage

def turnOf (s : Stage) (id : Nat) : Turn :=
  if (s.sequence id).paused then .paused
  else if !(s.sequence id).running then .idle
  else if (s.sequence id).stepCount ≤ (s.sequence id).current then .completed
  else if (s.sequence id).ticking then .busy
  else .driven

variable (s : Stage) {id : Nat}

theorem turnOf_paused (h : (s.sequence id).paused = true) : s.turnOf id = .paused := by
  simp [turnOf, h]

theorem turnOf_idle (h : (s.sequence id).paused = false) (hr : (s.sequence id).running = false) :
    s.turnOf id = .idle := by
  simp [turnOf, h, hr]

theorem turnOf_completed (h : s.Due id)
    (hc : (s.sequence id).stepCount ≤ (s.sequence id).current) : s.turnOf id = .completed := by
  simp [turnOf, h.unpaused, h.running, hc]

theorem turnOf_busy (h : s.Due id) (hc : (s.sequence id).current < (s.sequence id).stepCount)
    (hb : (s.sequence id).ticking = true) : s.turnOf id = .busy := by
  simp [turnOf, h.unpaused, h.running, hb, Nat.not_le.mpr hc]

theorem turnOf_driven (h : s.Due id) (hc : (s.sequence id).current < (s.sequence id).stepCount)
    (hb : (s.sequence id).ticking = false) : s.turnOf id = .driven := by
  simp [turnOf, h.unpaused, h.running, hb, Nat.not_le.mpr hc]

end Stage

namespace Ledger

variable {B : BarrierFact} {R : Bool → Stage → Stage → Prop} {run : Runner}

/-! Frames -/

section

variable (L : Ledger B R) {s t : Stage} {id : Nat}

include L

theorem fair_lending (hs : s.Holds B) :
    Fair B R true (s.note (.turn id .driven)) (s.lending id) := by
  have henter := L.fair_modify (f := fun q => { q with entered := true })
    (hs.note (.turn id .driven)) id fun _ => rfl
  exact L.fair_then henter (L.fair_modify (f := fun q => { q with ticking := true }) henter.holds id
    fun _ => rfl)

theorem fair_sweep (hs : s.Holds B) : Fair B R true s (s.sweep id) := by
  unfold Stage.sweep
  split
  · exact L.fair_refl hs
  · exact L.fair_of_same hs rfl rfl rfl rfl

/-- The step that was lent comes back with progress of which the fact is true. -/
theorem fair_afterPlay {q : Sequence} {part : Part} {p : part.step.Progress}
    {r : Except Halt Status} (h : Fair B R r.isOk s t) (hid : id < s.sequences.length)
    (hpart : (s.sequence id).parts[q.current]? = some part)
    (hp : part.step.Holds B t.barriers p) :
    Fair B R r.isOk s (t.afterPlay id q ⟨part.step, p⟩ r) := by
  have hsteps : (t.sequence id).steps[q.current]? = some part.step := by
    rw [h.later.steps id hid, Sequence.steps, List.getElem?_map, hpart]
    rfl
  have hback := L.fair_trans h
    (L.fair_withPart h.holds (Nat.lt_of_lt_of_le hid h.later.length) hsteps hp)
  rw [Bool.and_true] at hback
  cases r with
  | error e => exact hback
  | ok status =>
    have hdrove := L.fair_then hback (L.fair_note hback.holds (L.note _ (e := .drove id status) rfl))
    simp only [Stage.afterPlay, Stage.advancing]
    split
    · have hmove := L.fair_then hdrove (L.fair_modify (f := Sequence.advanced q.current)
        hdrove.holds id fun _ => rfl)
      exact L.fair_then hmove (L.fair_note hmove.holds (L.note _ rfl))
    · exact hdrove

theorem playPart (hrun : run.Obeys B R) (dt : Float32) (id : Nat) (q : Sequence) (part : Part) :
    (Conductor.playPart run dt id q part).Obeys B R (L.stepFact part.step (.top id q.current)) := by
  let cue : Cue := { owner := q.name, site := .top id q.current }
  exact L.drive cue (L.enterStep hrun part.step cue) (L.tickStep dt hrun part.step cue)
    (L.exitStep hrun part.step cue)

theorem fair_driveStep (hrun : run.Obeys B R) (dt : Float32) {part : Part} (hs : s.Holds B)
    (hid : id < s.sequences.length)
    (hpart : (s.sequence id).parts[(s.sequence id).current]? = some part) :
    Fair B R (Conductor.driveStep run dt id (s.sequence id) part s).1.isOk
      (s.note (.turn id .driven)) (Conductor.driveStep run dt id (s.sequence id) part s).2 := by
  have hlent : Fair B R true (s.note (.turn id .driven)) (s.lending id) := L.fair_lending hs
  have hat : (s.lending id).At (.top id (s.sequence id).current) part.step := by
    refine .inr (Stage.step?_top ?_)
    rw [s.sequence_lending_self hid]
    exact hpart
  have hpart' : part.step.Holds B (s.lending id).barriers part.progress :=
    hs.sequences id part (List.mem_of_getElem? hpart)
  rcases h : Conductor.playPart run dt id (s.sequence id) part (part.progress, s.lending id)
    with ⟨r, p, t⟩
  obtain ⟨hfair, -, hp⟩ := L.playPart hrun dt id (s.sequence id) part part.progress (s.lending id)
    hlent.holds ⟨hat, hpart'⟩
  rw [h] at hfair hp
  rw [Conductor.driveStep_apply h, isOk_map]
  exact L.fair_afterPlay (s := s.note (.turn id .driven)) (L.fair_then hlent hfair) hid hpart hp

/-- Once the turn is noted, what comes of it keeps the books. -/
theorem fair_takeTurn (hrun : run.Obeys B R) (dt : Float32) (id : Nat) (hs : s.Holds B) :
    Fair B R (Conductor.takeTurn run dt id s).1.isOk (s.note (.turn id (s.turnOf id)))
      (Conductor.takeTurn run dt id s).2 := by
  have hrefl : ∀ τ, Fair B R true (s.note (.turn id τ)) (s.note (.turn id τ)) :=
    fun τ => L.fair_refl (hs.note _)
  have hsweep : ∀ (r : Except Halt Unit × Stage) {v : Stage}, Fair B R r.1.isOk v r.2 →
      Fair B R (match r with
        | (.ok _, t) => (.ok (), t.sweep id)
        | (.error e, t) => (.error e, t) : Except Halt Unit × Stage).1.isOk v
      (match r with
        | (.ok _, t) => (.ok (), t.sweep id)
        | (.error e, t) => (.error e, t) : Except Halt Unit × Stage).2 := by
    rintro ⟨e | a, t⟩ v h
    · exact h
    · exact L.fair_then h (L.fair_sweep h.holds)
  by_cases hp : (s.sequence id).paused = true
  · rw [s.turnOf_paused hp, Conductor.takeTurn_paused hp]
    exact hrefl .paused
  have hp : (s.sequence id).paused = false := by simpa using hp
  rw [Conductor.takeTurn_unpaused hp]
  by_cases hr : (s.sequence id).running = true
  · by_cases hc : (s.sequence id).stepCount ≤ (s.sequence id).current
    · rw [s.turnOf_completed ⟨hp, hr⟩ hc, Conductor.turn_completed hr hc]
      exact hsweep _ (L.finish hrun id _ (hs.note _))
    · have hc : (s.sequence id).current < (s.sequence id).stepCount := by omega
      by_cases hb : (s.sequence id).ticking = true
      · rw [s.turnOf_busy ⟨hp, hr⟩ hc hb, Conductor.turn_busy hr hc hb]
        exact hsweep (.ok (), _) (L.fair_note (hs.note _) (L.note _ rfl))
      · have hb : (s.sequence id).ticking = false := by simpa using hb
        have hpart := List.getElem?_eq_getElem (l := (s.sequence id).parts) hc
        rw [s.turnOf_driven ⟨hp, hr⟩ hc hb, Conductor.turn_driven hr hpart hb]
        exact hsweep _ (L.fair_driveStep hrun dt hs (s.lt_of_running hr) hpart)
  · have hr : (s.sequence id).running = false := by simpa using hr
    rw [s.turnOf_idle hp hr, Conductor.turn_idle hr]
    exact hsweep (.ok (), _) (hrefl .idle)

theorem takeTurn (hrun : run.Obeys B R) (hturn : LetsTurns R) (dt : Float32) (id : Nat) :
    (Conductor.takeTurn run dt id).Obeys B R := fun s hs =>
  L.fair_then (L.fair_note hs (hturn s id (s.turnOf id))) (L.fair_takeTurn hrun dt id hs)

theorem takeTurns (hrun : run.Obeys B R) (hturn : LetsTurns R) (dt : Float32) (l : List Nat) :
    (Conductor.takeTurns run dt l).Obeys B R := by
  induction l with
  | nil => exact L.pure ()
  | cons id rest ih => exact L.bind (L.takeTurn hrun hturn dt id) fun _ => ih

theorem tick (hrun : run.Obeys B R) (hturn : LetsTurns R) (dt : Float32) :
    (Conductor.tick run dt).Obeys B R :=
  L.bind (L.read _) fun l => L.takeTurns hrun hturn dt l

theorem tickMany (hrun : run.Obeys B R) (hturn : LetsTurns R) (dt : Float32) (first n : Nat) :
    (Conductor.tickMany run dt first n).Obeys B R := by
  induction n generalizing first with
  | zero => exact L.pure ()
  | succ n ih =>
    exact L.bind (L.noteAct rfl) fun _ => L.bind (L.tick hrun hturn dt) fun _ => ih _

end

/-! Steps in the hands of the host -/

section

variable (L : Ledger B R)

include L

theorem fair_put {s : Stage} (hs : s.Holds B) (slot : String) {h : Held}
    (hh : h.Holds B s.barriers) : Fair B R true s { s with held := s.held.put slot h } := by
  apply L.fair_hold hs
  intro key x hx
  rcases Table.get?_of_put hx with rfl | hx
  · exact hh
  · exact hs.held key x hx

theorem fair_erase {s : Stage} (hs : s.Holds B) (slot : String) :
    Fair B R true s { s with held := s.held.erase slot } :=
  L.fair_hold hs fun key x hx => hs.held key x (Table.get?_of_erase hx)

/-- What a play made of something in a slot goes back into the slot. -/
theorem fair_borrow {s u : Stage} {ok : Bool} {slot : String} {h : Held} (hs : s.Holds B)
    (hu : Fair B R ok { s with held := s.held.erase slot } u) (hh : h.Holds B u.barriers) :
    Fair B R ok s { u with held := u.held.put slot h } := by
  have hl := L.fair_then (L.fair_erase hs slot) hu
  have hall := L.fair_trans hl (L.fair_put hl.holds slot hh)
  rwa [Bool.and_true] at hall

theorem heldPart {α : Type} {slot : String} {play : (x : Step Command) → Play x.Progress α}
    {answer : Part → α → Reply}
    (h : ∀ x, (play x).Obeys B R (L.stepFact x (.held slot))) :
    (Hands.playPart slot play answer).Obeys B R := by
  intro s hs
  simp only [Hands.playPart]
  split
  · next p hp =>
    obtain ⟨hu, -, hq⟩ := h p.step p.progress _ (L.fair_erase hs slot).holds
      ⟨.inl rfl, hs.held slot _ hp⟩
    rw [isOk_map]
    exact L.fair_borrow hs hu hq
  · exact L.fair_refl hs

def heldFact (l : List (Step Command)) : Fact (Children l) :=
  ⟨fun s p => holdsChildren B l s.barriers p, fun hl h => L.children_later hl.counts l _ h⟩

theorem nth_of_held {α : Type} {l : List (Step Command)} {σ : Site} {n : Nat}
    {play : Play (Children l) α} (hσ : σ.root = none) (h : play.Obeys B R (L.nthFact l σ n)) :
    play.Obeys B R (L.heldFact l) := by
  apply within h
  · exact fun s p hp => ⟨fun _ _ => .inl hσ, hp⟩
  · exact fun s p q _ hq => hq.2

theorem heldTrack {α : Type} {slot : String}
    {play : (t : HeldTrack) → Play (Track (Children t.steps)) α} {answer : HeldTrack → α → Reply}
    (h : ∀ t, (play t).Obeys B R (L.heldFact t.steps).track) :
    (Hands.playTrack slot play answer).Obeys B R := by
  intro s hs
  simp only [Hands.playTrack]
  split
  · next t ht =>
    obtain ⟨hu, hq⟩ := h t t.track _ (L.fair_erase hs slot).holds (hs.held slot _ ht)
    rw [isOk_map]
    exact L.fair_borrow hs hu hq
  · exact L.fair_refl hs

theorem hold {slot : String} {h : Held} (hh : ∀ b, h.Holds B b) : (Hands.put slot h).Obeys B R :=
  fun _ hs => L.fair_put hs slot (hh _)

theorem resolver : Hands.resolver.Obeys B R := L.bind (L.read _) fun _ => L.pure _

theorem registerHeld (slot : String) : (Hands.register slot).Obeys B R := by
  intro s hs
  simp only [Hands.register]
  split
  · next q hq =>
    have herase := L.fair_erase hs slot
    have henroll : Fair B R (Conductor.enroll q { s with held := s.held.erase slot }).1.isOk
        { s with held := s.held.erase slot }
        (Conductor.enroll q { s with held := s.held.erase slot }).2 := by
      simp only [Conductor.enroll, Act.bind_apply, Act.read]
      split
      · exact L.fair_refl herase.holds
      · have hsay := L.fair_note herase.holds (L.note _ (e := .notice (.registered q.name q.stepCount))
          rfl)
        exact L.fair_then hsay (L.fair_enroll hsay.holds (hs.held slot _ hq))
    rw [isOk_map]
    exact L.fair_then herase henroll
  · exact L.fair_refl hs

/-! Commands -/

/-- A command keeps the books if what its callbacks do does, and if turns may pass when it is a
frame. -/
theorem dispatch (hrun : run.Obeys B R) : (c : Command) → (c.isTick = true → LetsTurns R) →
    (dispatch run c).Obeys B R
  | .register outline, _ => L.bind (L.register outline) fun _ => L.pure _
  | .start name, _ => L.bind (L.start hrun name) fun _ => L.pure _
  | .stop name, _ => L.bind (L.stop hrun name) fun _ => L.pure _
  | .pause name, _ => L.bind (L.setPaused name _) fun _ => L.pure _
  | .resume name, _ => L.bind (L.setPaused name _) fun _ => L.pure _
  | .togglePause name, _ => L.bind (L.setPaused name _) fun _ => L.pure _
  | .reset name, _ => L.bind (L.reset name) fun _ => L.pure _
  | .remove name, _ => L.bind (L.remove hrun name) fun _ => L.pure _
  | .tick dt none, hturn => L.bind (L.tick hrun (hturn rfl) dt) fun _ => L.pure _
  | .tick dt (some n), hturn => L.bind (L.tickMany hrun (hturn rfl) dt 0 n) fun _ => L.pure _
  | .capture name keepAs, _ => by
    refine L.bind (L.capture name) fun b => ?_
    dsimp only
    split
    · exact L.bind (L.onHost _) fun _ => L.pure _
    · exact L.pure (Reply.bookmark b)
  | .restore (.at b), _ => L.bind (L.restore b) fun _ => L.pure _
  | .restore (.kept key), _ => by
    refine L.bind (L.read _) fun b => ?_
    cases b with
    | some b => exact L.bind (L.restore b) fun _ => L.pure _
    | none => exact L.pure _
  | .ask query, _ => L.read _
  | .edit change, _ => L.apply change
  | .panic message, _ => L.halt _
  | .holdStep slot step, _ => L.bind L.resolver fun resolve =>
      L.bind (L.hold fun b => L.step_fresh resolve b step) fun _ => L.pure _
  | .enterHeld slot, _ => L.heldPart fun x => L.enterStep hrun x (Hands.cueOf slot)
  | .tickHeld slot dt, _ => L.heldPart fun x => L.tickStep dt hrun x (Hands.cueOf slot)
  | .exitHeld slot, _ => L.heldPart fun x => L.exitStep hrun x (Hands.cueOf slot)
  | .holdTrack slot steps onFailure, _ => L.bind L.resolver fun resolve =>
      L.bind (L.hold fun b => L.children_fresh resolve b steps) fun _ => L.pure _
  | .tickTrack slot dt, _ => L.heldTrack fun t => L.tickTrack fun i fresh =>
      L.nth_of_held rfl (L.driveNth dt hrun t.steps ((Hands.cueOf slot).child i) i i fresh)
  | .cancelTrack slot, _ => L.heldTrack fun t => L.cancelTrack fun i =>
      L.nth_of_held rfl (L.exitNth hrun t.steps ((Hands.cueOf slot).child i) i)
  | .rewindTrack slot, _ => L.heldTrack fun t => L.changePlay fun _ _ h => h
  | .holdSequence slot outline, _ => L.bind L.resolver fun resolve =>
      L.bind (L.hold fun b => L.build resolve b outline) fun _ => L.pure _
  | .registerHeld slot, _ => L.registerHeld slot

end

end Ledger

/-- Whatever a session does, it keeps the books as a ledger says that lets turns pass. -/
theorem Session.fair {B : BarrierFact} {R : Bool → Stage → Stage → Prop} (L : Ledger B R)
    (hturn : LetsTurns R) {calm : Bool} {s t : Stage} (h : Session calm s t) (hs : s.Holds B) :
    Fair B R calm s t := by
  induction h with
  | refl s => exact L.fair_refl hs
  | halted _ ih => exact L.fair_halted (ih hs)
  | command run c callbacks _ ihc ih =>
    have hst := ih hs
    have hrun : run.Obeys B R := L.runner fun c u hu => ihc c u hu
    exact L.fair_trans hst (L.dispatch hrun c (fun _ => hturn) _ hst.holds)

theorem Stage.opening_holds (B : BarrierFact) (settings : Settings) (host : Host) :
    (Stage.opening settings host).Holds B := by
  constructor
  · intro id part hpart
    rw [sequence_opening] at hpart
    exact absurd hpart List.not_mem_nil
  · intro slot h hh
    exact absurd hh (by simp [opening, Table.get?])

end Sequencer
