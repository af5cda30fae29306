import Sequencer.Proofs.Lasting

/-!
# The journal tells the state of every sequence

Cursor, flags and generation of a sequence can be read off the journal: every change of them is
noted as it is made. What the journal tells of a stretch is what became of them in it, whatever
callbacks did meanwhile and whether or not anything halted.
-/

set_option autoImplicit false

namespace Sequencer

open Site (Nowhere Within)

/-- What the journal tells of a sequence. -/
structure Record where
  current : Nat := 0
  entered : Bool := false
  running : Bool := false
  generation : Nat := 0
  deriving DecidableEq

def Sequence.record (q : Sequence) : Record := ⟨q.current, q.entered, q.running, q.generation⟩

namespace Record

def after (id : Nat) (e : Entry) (r : Record) : Record :=
  match e with
  | .began i => if i = id then { r with running := true } else r
  | .restored i _ => if i = id then { r with running := true } else r
  | .moved i .settled c => if i = id then { r with current := c, entered := false } else r
  | .moved i _ c =>
    if i = id then { r with current := c, entered := false, generation := r.generation + 1 } else r
  | .notified _ _ .started _ => r
  | .notified i _ _ _ => if i = id then { r with running := false, entered := false } else r
  | .turn i .driven => if i = id then { r with entered := true } else r
  | _ => r

def replay (id : Nat) (l : List Entry) (r : Record) : Record := l.foldr (after id) r

variable {id : Nat} {r : Record}

@[simp] theorem replay_nil : replay id [] r = r := rfl

@[simp] theorem replay_cons (e : Entry) (l : List Entry) :
    replay id (e :: l) r = (replay id l r).after id e := rfl

theorem replay_append (l l' : List Entry) : replay id (l ++ l') r = replay id l (replay id l' r) :=
  List.foldr_append

theorem after_remark {e : Entry} (he : e.isRemark = true) : r.after id e = r := by
  cases e <;> first | rfl | simp [Entry.isRemark] at he

theorem replay_remarks {l : List Entry} (hl : ∀ e ∈ l, e.isRemark = true) : replay id l r = r := by
  induction l with
  | nil => rfl
  | cons e l ih =>
    rw [replay_cons, ih fun e' he' => hl e' (List.mem_cons_of_mem _ he')]
    exact after_remark (hl e List.mem_cons_self)

end Record

def Tells (s t : Stage) : Prop :=
  ∃ l, t.journal = l ++ s.journal ∧
    ∀ i, (t.sequence i).record = Record.replay i l (s.sequence i).record

namespace Tells

variable {s t u : Stage}

theorem refl (s : Stage) : Tells s s := ⟨[], rfl, fun _ => rfl⟩

theorem trans (h : Tells s t) (h' : Tells t u) : Tells s u := by
  obtain ⟨l, hl, hr⟩ := h
  obtain ⟨l', hl', hr'⟩ := h'
  refine ⟨l' ++ l, by rw [hl', hl, List.append_assoc], fun i => ?_⟩
  rw [hr' i, hr i, Record.replay_append]

theorem aside (h : Aside s t) : Tells s t := by
  obtain ⟨l, hl, hr⟩ := h.journal
  exact ⟨l, hl, fun i => by rw [h.sequence, Record.replay_remarks hr]⟩

/-- Nothing is told, and nothing became of anything. -/
theorem silent (hj : t.journal = s.journal)
    (hr : ∀ i, (t.sequence i).record = (s.sequence i).record) : Tells s t :=
  ⟨[], hj, hr⟩

theorem modify (h : Tells s t) (id : Nat) {f : Sequence → Sequence}
    (hf : ∀ q, (f q).record = q.record) : Tells s (t.modify id f) :=
  h.trans (silent rfl fun i => t.field_modify Sequence.record hf id i)

theorem note (h : Tells s t) {e : Entry} (he : ∀ i (r : Record), r.after i e = r) :
    Tells s (t.note e) :=
  h.trans ⟨[e], rfl, fun i => (he i _).symm⟩

theorem delist (h : Tells s t) (id : Nat) : Tells s (t.delist id) :=
  h.trans (silent rfl fun _ => rfl)

theorem sweep (h : Tells s t) (id : Nat) : Tells s (t.sweep id) :=
  h.trans (silent (by simp) fun i => by simp)

theorem enroll (h : Tells s t) {q : Sequence} (hq : q.record = {}) : Tells s (t.enroll q) := by
  refine h.trans (silent rfl fun i => ?_)
  rw [Stage.sequence_enroll]
  split
  · next hi => rw [hq, t.sequence_of_length_le (by omega)]; rfl
  · rfl

/-- One sequence changes as the entries that are added tell. -/
theorem changed (id : Nat) (l : List Entry) (hj : t.journal = l ++ s.journal)
    (hself : (t.sequence id).record = Record.replay id l (s.sequence id).record)
    (hne : ∀ i, i ≠ id → t.sequence i = s.sequence i)
    (hl : ∀ i r, i ≠ id → Record.replay i l r = r) : Tells s t := by
  refine ⟨l, hj, fun i => ?_⟩
  by_cases hi : i = id
  · rw [hi]
    exact hself
  · rw [hne i hi, hl i _ hi]

section

variable {id : Nat}

theorem ending (hid : id < s.sequences.length) {hook : Hook} (hh : hook ≠ .started) (n : Notice) :
    Tells s (s.ending id hook n) := by
  apply changed id [.notified id _ hook _, .notice n] rfl
  · rw [Stage.ending, Stage.sequence_notify, Stage.sequence_note,
      Stage.sequence_modify_self _ _ hid]
    cases hook <;> simp_all [Record.after, Sequence.ended, Sequence.record]
  · intro i hi
    rw [Stage.ending, Stage.sequence_notify, Stage.sequence_note, Stage.sequence_modify_ne _ _ hi]
  · intro i r hi
    cases hook <;> simp [Record.after, Ne.symm hi]

theorem starting (hid : id < s.sequences.length) (n : Notice) : Tells s (s.starting id n) := by
  have hj : ∃ e, (s.starting id n).journal =
      [e, .moved id .started 0, .began id, .notice n] ++ s.journal ∧
      ∀ i (r : Record), r.after i e = r := by
    rw [Stage.starting, Stage.journal_notify, Stage.journal_enlist]
    exact ⟨_, rfl, fun _ _ => rfl⟩
  obtain ⟨e, hj, he⟩ := hj
  apply changed id [e, .moved id .started 0, .began id, .notice n] hj
  · rw [Record.replay_cons, he]
    simp [Stage.starting, Stage.sequence_modify_self _ _ hid, Record.after, Sequence.record,
      Sequence.begun, Sequence.rewound]
  · intro i hi
    simp [Stage.starting, Stage.sequence_modify_ne _ _ hi]
  · intro i r hi
    rw [Record.replay_cons, he]
    simp [Record.after, Ne.symm hi]

theorem rewinding (hid : id < s.sequences.length) : Tells s (s.rewinding id) := by
  apply changed id [.moved id .reset 0] rfl
  · simp [Stage.rewinding, Stage.sequence_modify_self _ _ hid, Record.after, Sequence.record,
      Sequence.rewound]
  · intro i hi
    simp [Stage.rewinding, Stage.sequence_modify_ne _ _ hi]
  · intro i r hi
    simp [Record.after, Ne.symm hi]

theorem restoring (hid : id < s.sequences.length) (index : Nat) :
    Tells s (s.restoring id index) := by
  have hcurrent : ((s.modify id (Sequence.resumed index)).sequence id).current =
      min index (s.sequence id).stepCount := by
    rw [s.sequence_modify_self _ hid]
    rfl
  have hj : (s.restoring id index).journal =
      [.moved id (.restored index) (min index (s.sequence id).stepCount),
        .restored id (s.sequence id).running] ++ s.journal := by
    rw [← hcurrent, Stage.restoring, Stage.journal_enlist]
    rfl
  apply changed id _ hj
  · simp [Stage.restoring, Stage.sequence_modify_self _ _ hid, Record.after, Sequence.record,
      Sequence.resumed]
  · intro i hi
    simp [Stage.restoring, Stage.sequence_modify_ne _ _ hi]
  · intro i r hi
    simp [Record.after, Ne.symm hi]

theorem lending (hid : id < s.sequences.length) : Tells s (s.lending id) := by
  apply changed id [.turn id .driven] rfl
  · rw [s.sequence_lending_self hid]
    simp [Record.after, Sequence.record]
  · exact fun i hi => s.sequence_lending_ne hi
  · intro i r hi
    simp [Record.after, Ne.symm hi]

theorem advancing (hid : id < s.sequences.length) (index generation : Nat) (status : Status) :
    Tells s (s.advancing id index generation status) := by
  unfold Stage.advancing
  split
  · apply changed id [.moved id .settled (index + 1)] rfl
    · simp [Stage.sequence_modify_self _ _ hid, Record.after, Sequence.record, Sequence.advanced]
    · intro i hi
      simp [Stage.sequence_modify_ne _ _ hi]
    · intro i r hi
      simp [Record.after, Ne.symm hi]
  · exact refl s

theorem afterPlay (hid : id < s.sequences.length) (q : Sequence) (part : Part)
    (r : Except Halt Status) : Tells s (s.afterPlay id q part r) := by
  have hr : Tells s (s.returning id q.current part) := modify (refl s) id fun _ => rfl
  cases r with
  | error e => exact hr
  | ok status =>
    exact (hr.note fun _ _ => rfl).trans (advancing (by simpa [Stage.returning] using hid) _ _ _)

end

end Tells

theorem Incident.tells {own : Site → Prop} {s t : Stage} (h : Incident own s t) (hs : s.Sound) :
    Tells s t := by
  cases h with
  | aside h => exact .aside h
  | called c _ => exact .note (.refl s) fun _ _ => rfl
  | returned r _ => exact .note (.refl s) fun _ _ => rfl
  | held h _ => exact .silent rfl fun _ => rfl
  | registered resolve o _ => exact .enroll (.refl s) rfl
  | @registeredHeld slot q hq _ =>
    obtain ⟨resolve, o, rfl⟩ := hs.held slot q hq
    exact .enroll (.silent rfl fun _ => rfl) rfl
  | checked id => exact .modify (.refl s) id fun _ => rfl
  | paused id f => exact .modify (.refl s) id fun _ => rfl
  | started n hn _ => exact .starting (hs.named _ _ hn).1 n
  | reset hn => exact .rewinding (hs.named _ _ hn).1
  | restored index hn => exact .restoring (hs.named _ _ hn).1 index
  | ended n hh hr => exact .ending (s.lt_of_running hr) hh n
  | dropped id => exact .delist (.note (.refl s) fun _ _ => rfl) id
  | unregistered name => exact .silent rfl fun _ => rfl
  | delisted id => exact .delist (.refl s) id
  | swept id => exact .sweep (.refl s) id
  | @turned id τ hτ =>
    apply Tells.note (.refl s)
    intro i r
    cases τ <;> first | rfl | exact hτ.elim

/-- Along every course the journal tells what becomes of the sequences. -/
theorem Course.tells {own : Site → Prop} {calm : Bool} {s t : Stage} (h : Course own calm s t)
    (hs : s.Sound) : Tells s t := by
  induction h with
  | single h => exact h.tells hs
  | halt _ ih => exact ih hs
  | trans h _ ih ih' => exact (ih hs).trans (ih' (h.lasts hs).1)
  | widen _ _ ih => exact ih hs
  | @driven own run dt s t id part r p hd h ih =>
    have hid := s.lt_of_running hd.due.running
    have hl := hs.lending id
    have hlent : Tells s t := (Tells.lending hid).trans (ih hl)
    exact hlent.trans (.afterPlay (hd.length (h.lasts hl).2) (s.sequence id) ⟨part.step, p⟩ r)

theorem Leads.tells {own : Site → Prop} {calm : Bool} {s t : Stage} (h : Leads own calm s t)
    (hs : s.Sound) : Tells s t := h.course.tells hs

/-- While a step is played with, its sequence is left to it, and the journal tells what becomes of
the sequence all the same. -/
theorem Drive.notes {run : Runner} {dt : Float32} {s t : Stage} {id : Nat} {part : Part}
    {r : Except Halt Status} {p : part.step.Progress} (hd : Drive run dt s id part r p t)
    (hs : s.Sound) : ∃ l, t.journal = l ++ .turn id .driven :: s.journal ∧
      (∀ e ∈ l, e.Spares (Within (.top id (s.sequence id).current)) id) ∧
      (t.sequence id).record =
        Record.replay id l { (s.sequence id).record with entered := true } := by
  have hself := s.sequence_lending_self (s.lt_of_running hd.due.running)
  obtain ⟨l, hl, hrecord⟩ := hd.leads.tells (hs.lending id)
  obtain ⟨l', hl', hspares⟩ := (hd.leads.lasts (hs.lending id)).2.journal
  obtain rfl : l' = l := List.append_cancel_right (hl'.symm.trans hl)
  refine ⟨l', hl, hspares id (by rw [hself]), ?_⟩
  rw [hrecord id, hself]
  rfl

end Sequencer
