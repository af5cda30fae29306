import Sequencer.Proofs.ActiveList
import Sequencer.Proofs.Course.Drive

/-!
# The cursor under re-entrant calls

A turn reads the cursor, calls user code that may move it, and then moves it on. What each entry
of the journal stands for is stated against the entries before it and the entries after it; every
course adds only entries that stand to it, halted or not.
-/

set_option autoImplicit false

namespace Sequencer

open Site (Nowhere Within Below)

def Entry.Moves (id : Nat) : Entry → Prop
  | .moved i _ _ => i = id
  | _ => False

def SinceDriven (id : Nat) (since before j : List Entry) : Prop :=
  j = since ++ .turn id .driven :: before ∧ ∀ e ∈ since, e ≠ .turn id .driven

/-- What an entry stands for, between the entries `j` before it and the entries `l` after it. A
step that is driven is one that there is, and it is entered first if the cursor came to it since
the last drive. When it answers with the end of its work the cursor moves on, by one, if and only
if nothing has moved it since the step was driven. -/
def Entry.Stands (s : Stage) (l : List Entry) (e : Entry) (j : List Entry) : Prop :=
  match e with
  | .moved id .started c => c = 0 ∧ ∃ j', j = .began id :: j'
  | .moved _ .reset c => c = 0
  | .moved id (.restored i) c => id < s.sequences.length ∧ c = min i (s.sequence id).stepCount
  | .moved id .settled c => ∃ status since before j', j = .drove id status :: j' ∧
      status.isTerminal = true ∧ SinceDriven id since before j' ∧ (∀ e ∈ since, ¬ e.Moves id) ∧
      c = (Record.replay id before {}).current + 1
  | .drove id status => ∃ since before, SinceDriven id since before j ∧
      .returned (.top id (Record.replay id before {}).current) (some status) ∈ since ∧
      (status.isTerminal = true → (∀ e ∈ since, ¬ e.Moves id) →
        ∃ l', l = l' ++ [.moved id .settled ((Record.replay id before {}).current + 1)])
  | .turn id .driven => id < s.sequences.length ∧
      (Record.replay id j {}).current < (s.sequence id).stepCount ∧
      (Record.replay id j {}).running = true ∧
      ∃ l' call n, l = l' ++ .called (.top id (Record.replay id j {}).current) call :: n ∧
        (∀ e ∈ n, ∃ m, e = .notice m) ∧ (call = .enter ↔ (Record.replay id j {}).entered = false)
  | .turn _ .missing => False
  | _ => True

def Entry.isPlain : Entry → Bool
  | .moved .. => false
  | .drove .. => false
  | .turn _ .driven => false
  | .turn _ .missing => false
  | _ => true

theorem Entry.isPlain_of_isRemark {e : Entry} (h : e.isRemark = true) : e.isPlain = true := by
  cases e <;> first | rfl | simp [isRemark] at h

theorem Entry.stands_of_isPlain {e : Entry} (h : e.isPlain = true) (s : Stage)
    (l j : List Entry) : e.Stands s l j := by
  cases e with
  | moved i m c => simp [isPlain] at h
  | drove i status => simp [isPlain] at h
  | turn i τ => cases τ <;> trivial
  | _ => trivial

structure Wider (s t : Stage) : Prop where
  length : s.sequences.length ≤ t.sequences.length
  stepCount : ∀ id, id < s.sequences.length →
    (t.sequence id).stepCount = (s.sequence id).stepCount

namespace Wider

variable {s t u : Stage}

theorem trans (h : Wider s t) (h' : Wider t u) : Wider s u :=
  ⟨Nat.le_trans h.length h'.length, fun id hid =>
    (h'.stepCount id (Nat.lt_of_lt_of_le hid h.length)).trans (h.stepCount id hid)⟩

theorem of_extends {own : Site → Prop} (h : Extends own s t) : Wider s t :=
  ⟨h.length, fun id hid => by
    rw [← Sequence.length_steps, ← Sequence.length_steps, h.steps id hid]⟩

theorem refl (s : Stage) : Wider s s := of_extends (.refl Nowhere s)

theorem note (h : Wider s t) (e : Entry) : Wider s (t.note e) := ⟨h.length, h.stepCount⟩

theorem modify (h : Wider s t) (id : Nat) {f : Sequence → Sequence}
    (hf : ∀ q, (f q).stepCount = q.stepCount) : Wider s (t.modify id f) :=
  h.trans ⟨by simp, fun i _ => t.field_modify Sequence.stepCount hf id i⟩

theorem returning (s : Stage) (id index : Nat) (part : Part) :
    Wider s (s.returning id index part) := by
  apply (refl s).modify
  exact fun q => q.stepCount_withPart index part

end Wider

theorem Entry.Stands.mono {s t : Stage} {l j : List Entry} {e : Entry} (h : e.Stands s l j)
    (hw : Wider s t) (l' : List Entry) : e.Stands t (l' ++ l) j := by
  cases e with
  | moved id m c =>
    cases m with
    | restored i =>
      obtain ⟨hid, hc⟩ := h
      exact ⟨Nat.lt_of_lt_of_le hid hw.length, by rw [hw.stepCount id hid]; exact hc⟩
    | _ => exact h
  | drove id status =>
    obtain ⟨since, before, hj, hr, hl⟩ := h
    refine ⟨since, before, hj, hr, fun ht hm => ?_⟩
    obtain ⟨l₁, rfl⟩ := hl ht hm
    exact ⟨l' ++ l₁, by rw [List.append_assoc]⟩
  | turn id τ =>
    cases τ with
    | driven =>
      obtain ⟨hid, hk, hr, l₁, call, n, rfl, hn, hc⟩ := h
      refine ⟨Nat.lt_of_lt_of_le hid hw.length, ?_, hr, l' ++ l₁, call, n, ?_, hn, hc⟩
      · rw [hw.stepCount id hid]; exact hk
      · rw [List.append_assoc]
    | _ => exact h
  | _ => trivial

structure Ordered (s t : Stage) : Prop where
  wider : Wider s t
  journal : ∃ l, t.journal = l ++ s.journal ∧
    ∀ l₁ e l₂, l = l₁ ++ e :: l₂ → e.Stands t l₁ (l₂ ++ s.journal)

namespace Ordered

variable {s t u : Stage}

theorem trans (h : Ordered s t) (h' : Ordered t u) : Ordered s u := by
  obtain ⟨l, hl, hs⟩ := h.journal
  obtain ⟨l', hl', hs'⟩ := h'.journal
  refine ⟨h.wider.trans h'.wider, l' ++ l, by rw [hl', hl, List.append_assoc], ?_⟩
  intro l₁ e l₂ heq
  rcases List.append_eq_append_iff.mp heq with ⟨m, rfl, hm⟩ | ⟨m, rfl, hm⟩
  · exact (hs m e l₂ hm).mono h'.wider l'
  · rcases List.cons_eq_append_iff.mp hm with ⟨rfl, hm⟩ | ⟨m', rfl, rfl⟩
    · have hst := (hs [] e l₂ hm.symm).mono h'.wider l₁
      rwa [List.append_nil] at hst
    · rw [List.append_assoc, ← hl]
      exact hs' l₁ e m' rfl

theorem plain {l : List Entry} (hw : Wider s t) (hj : t.journal = l ++ s.journal)
    (hl : ∀ e ∈ l, e.isPlain = true) : Ordered s t :=
  ⟨hw, l, hj, fun l₁ e l₂ heq => Entry.stands_of_isPlain (hl e (by rw [heq]; simp)) _ _ _⟩

theorem refl (s : Stage) : Ordered s s := plain (l := []) (.refl s) rfl (by simp)

theorem silent (h : Ordered s t) (hw : Wider t u) (hj : u.journal = t.journal) : Ordered s u :=
  h.trans (plain (l := []) hw hj (by simp))

theorem note (h : Ordered s t) {e : Entry} (he : e.Stands (t.note e) [] t.journal) :
    Ordered s (t.note e) := by
  refine h.trans ⟨⟨Nat.le_refl _, fun _ _ => rfl⟩, [e], rfl, fun l₁ e' l₂ heq => ?_⟩
  rcases List.cons_eq_append_iff.mp heq with ⟨rfl, heq⟩ | ⟨m, rfl, heq⟩
  · obtain ⟨rfl, rfl⟩ := List.cons.inj heq
    exact he
  · exact absurd heq (by simp)

theorem modify (h : Ordered s t) (id : Nat) {f : Sequence → Sequence}
    (hf : ∀ q, (f q).stepCount = q.stepCount) : Ordered s (t.modify id f) :=
  h.silent (.modify (.refl t) id hf) rfl

theorem enlist (h : Ordered s t) (id : Nat) : Ordered s (t.enlist id) :=
  h.silent ⟨by simp, by simp⟩ (by simp)

theorem sweep (h : Ordered s t) (id : Nat) : Ordered s (t.sweep id) :=
  h.silent (.of_extends (.sweep (.refl Nowhere t) id)) (by simp)

theorem delist (h : Ordered s t) (id : Nat) : Ordered s (t.delist id) :=
  h.silent ⟨Nat.le_refl _, fun _ _ => rfl⟩ rfl

theorem starting (s : Stage) (id : Nat) (n : Notice) : Ordered s (s.starting id n) := by
  have hq : Ordered s (s.modify id Sequence.begun) := (refl s).modify id fun _ => rfl
  have hn : Ordered s ((s.modify id Sequence.begun).note (.notice n)) := hq.note trivial
  have hb : Ordered s (((s.modify id Sequence.begun).note (.notice n)).note (.began id)) :=
    hn.note trivial
  have hm : Ordered s ((((s.modify id Sequence.begun).note (.notice n)).note (.began id)).note
      (.moved id .started 0)) := hb.note ⟨rfl, _, rfl⟩
  exact (hm.enlist id).note trivial

theorem ending (s : Stage) (id : Nat) (hook : Hook) (n : Notice) :
    Ordered s (s.ending id hook n) := by
  have hq : Ordered s (s.modify id Sequence.ended) := (refl s).modify id fun _ => rfl
  have hn : Ordered s ((s.modify id Sequence.ended).note (.notice n)) := hq.note trivial
  exact hn.note trivial

theorem rewinding (s : Stage) (id : Nat) : Ordered s (s.rewinding id) := by
  have hq : Ordered s (s.modify id Sequence.rewound) := (refl s).modify id fun _ => rfl
  exact hq.note rfl

theorem restoring (s : Stage) {id : Nat} (hid : id < s.sequences.length) (index : Nat) :
    Ordered s (s.restoring id index) := by
  have hq : Ordered s (s.modify id (Sequence.resumed index)) := (refl s).modify id fun _ => rfl
  have hr : Ordered s ((s.modify id (Sequence.resumed index)).note
      (.restored id (s.sequence id).running)) := hq.note trivial
  refine enlist (note hr ?_) id
  refine ⟨by simpa using hid, ?_⟩
  show ((s.modify id (Sequence.resumed index)).sequence id).current =
    min index ((s.modify id (Sequence.resumed index)).sequence id).stepCount
  rw [s.sequence_modify_self _ hid]
  rfl

theorem dropping (h : Ordered s t) (id : Nat) : Ordered s (t.dropping id) :=
  (h.note (e := .dropped id _) trivial).delist id

end Ordered

theorem Record.after_unmoved {id : Nat} {e : Entry} (he : ¬ e.Moves id) (r : Record) :
    (r.after id e).current = r.current ∧ (r.after id e).generation = r.generation := by
  cases e with
  | moved i m c => cases m <;> simp_all [Entry.Moves, after]
  | notified i name hook b => cases hook <;> constructor <;> simp only [after] <;> split <;> rfl
  | turn i τ => cases τ <;> constructor <;> simp only [after] <;> split <;> rfl
  | began i => simp only [after]; split <;> exact ⟨rfl, rfl⟩
  | restored i b => simp only [after]; split <;> exact ⟨rfl, rfl⟩
  | _ => exact ⟨rfl, rfl⟩

theorem Record.after_moved {id : Nat} {e : Entry} (he : e.Moves id) (r : Record) :
    (r.after id e).entered = false := by
  cases e with
  | moved i m c =>
    obtain rfl : i = id := he
    cases m <;> simp [after]
  | _ => exact absurd he (by simp [Entry.Moves])

/-- Only a drive has a step entered. -/
theorem Record.after_not_entered {id : Nat} {e : Entry} {r : Record} (he : e ≠ .turn id .driven)
    (hr : r.entered = false) : (r.after id e).entered = false := by
  cases e with
  | moved i m c => cases m <;> simp only [after] <;> split <;> first | rfl | exact hr
  | notified i name hook b => cases hook <;> simp only [after] <;> (try split) <;>
      first | rfl | exact hr
  | turn i τ =>
    cases τ with
    | driven =>
      have hi : i ≠ id := fun hi => he (by rw [hi])
      simpa [after, hi] using hr
    | _ => exact hr
  | began i => simp only [after]; split <;> exact hr
  | restored i b => simp only [after]; split <;> exact hr
  | _ => exact hr

theorem Record.replay_not_entered {id : Nat} {l : List Entry} {r : Record}
    (hl : ∀ e ∈ l, e ≠ .turn id .driven) (hr : r.entered = false) :
    (replay id l r).entered = false := by
  induction l with
  | nil => exact hr
  | cons e l ih =>
    have h := ih fun e' he' => hl e' (List.mem_cons_of_mem _ he')
    exact after_not_entered (hl e List.mem_cons_self) h

/-- A step that still counts as entered is the one that did before, unless another was driven. -/
theorem Record.replay_entered {id : Nat} {l : List Entry} {r : Record}
    (hl : ∀ e ∈ l, e ≠ .turn id .driven) (h : (replay id l r).entered = true) :
    (replay id l r).current = r.current ∧ (replay id l r).generation = r.generation := by
  induction l with
  | nil => exact ⟨rfl, rfl⟩
  | cons e l ih =>
    have he := hl e List.mem_cons_self
    by_cases hm : e.Moves id
    · rw [replay_cons, after_moved hm] at h
      exact absurd h (by simp)
    · have hentered : (replay id l r).entered = true := by
        by_cases hr : (replay id l r).entered = true
        · exact hr
        · rw [replay_cons, after_not_entered he (by simpa using hr)] at h
          exact absurd h (by simp)
      obtain ⟨hc, hg⟩ := ih (fun e' he' => hl e' (List.mem_cons_of_mem _ he')) hentered
      rw [replay_cons, (after_unmoved hm _).1, (after_unmoved hm _).2]
      exact ⟨hc, hg⟩

/-- Every move but that of a step that settles makes the generation grow. -/
theorem Record.generation_replay {own : Site → Prop} {id : Nat} {l : List Entry}
    (hl : ∀ e ∈ l, e.Spares own id) (r : Record) :
    r.generation ≤ (replay id l r).generation ∧
      ((replay id l r).generation = r.generation ↔ ∀ e ∈ l, ¬ e.Moves id) := by
  induction l with
  | nil => simp
  | cons e l ih =>
    obtain ⟨hle, hiff⟩ := ih fun e' he' => hl e' (List.mem_cons_of_mem _ he')
    have he := hl e List.mem_cons_self
    have hcons : (∀ e' ∈ e :: l, ¬ e'.Moves id) ↔ ¬ e.Moves id ∧ ∀ e' ∈ l, ¬ e'.Moves id := by
      simp
    rw [hcons, ← hiff, replay_cons]
    by_cases hm : e.Moves id
    · cases e with
      | moved i m c =>
        have hi : i = id := hm
        subst hi
        cases m <;> simp_all [after, Entry.Spares] <;> omega
      | _ => exact absurd hm (by simp [Entry.Moves])
    · rw [(after_unmoved hm _).2]
      exact ⟨hle, fun h => ⟨hm, h⟩, fun h => h.2⟩

def Stage.Tracked (s : Stage) : Prop :=
  ∀ id, (s.sequence id).record = Record.replay id s.journal {}

theorem Tells.tracked {s t : Stage} (h : Tells s t) (hs : s.Tracked) : t.Tracked := by
  obtain ⟨l, hl, hr⟩ := h
  intro id
  rw [hr id, hs id, hl, Record.replay_append]

namespace Ordered

variable {s t : Stage} {id : Nat} {part : Part}

/-- The entries of a drive, up to the answer of the step. -/
theorem driving {run : Runner} {dt : Float32} {r : Except Halt Status} {p : part.step.Progress}
    (hs : s.Tracked) (hd : Drive run dt s id part r p t) (h : Ordered (s.lending id) t) :
    Ordered s t := by
  have hid := s.lt_of_running hd.due.running
  have hw : Wider s (s.lending id) := by
    refine ⟨Nat.le_of_eq (s.length_lending id).symm, fun i _ => ?_⟩
    by_cases hi : i = id
    · subst hi
      rw [s.sequence_lending_self hid]
      rfl
    · rw [s.sequence_lending_ne hi]
  obtain ⟨l, hl, hst⟩ := h.journal
  have hcur : (Record.replay id s.journal {}).current = (s.sequence id).current := by
    rw [← hs id]
    rfl
  have hturn : (Entry.turn id .driven).Stands t l s.journal := by
    refine ⟨?_, ?_, ?_, ?_⟩
    · exact Nat.lt_of_lt_of_le hid (hw.trans h.wider).length
    · rw [hcur, (hw.trans h.wider).stepCount id hid]
      exact (List.getElem?_eq_some_iff.mp hd.cursor).1
    · rw [← hs id]
      exact hd.due.running
    · obtain ⟨l', call, n, hc, hn, he⟩ := Conductor.playPart_calls hd.callbacks hd.play
      refine ⟨l', call, n, ?_, hn, he.trans ?_⟩
      · rw [hcur]
        apply @List.append_cancel_right _ _ (s.lending id).journal
        rw [← hl, List.append_assoc, List.cons_append]
        exact hc
      · rw [← hs id]
        simp [Sequence.record]
  refine ⟨hw.trans h.wider, l ++ [.turn id .driven], by rw [hl]; simp [s.journal_lending], ?_⟩
  intro l₁ e l₂ heq
  rcases List.append_eq_append_iff.mp heq with ⟨m, rfl, hm⟩ | ⟨m, rfl, hm⟩
  · rcases List.cons_eq_append_iff.mp hm with ⟨rfl, hm⟩ | ⟨m', rfl, hm⟩
    · obtain ⟨rfl, rfl⟩ := List.cons.inj hm
      rw [List.append_nil]
      exact hturn
    · exact absurd hm (by simp)
  · rcases List.cons_eq_append_iff.mp hm with ⟨rfl, hm⟩ | ⟨m', rfl, rfl⟩
    · obtain ⟨rfl, rfl⟩ := List.cons.inj hm
      rw [List.append_nil] at hturn
      exact hturn
    · rw [List.append_assoc]
      exact hst l₁ e m' rfl

/-- The entries after the answer of the step. -/
theorem settling {l : List Entry} {status : Status} (hs : s.Tracked) (ht : id < t.sequences.length)
    (hl : t.journal = l ++ .turn id .driven :: s.journal)
    (hd : ∀ e ∈ l, e ≠ .turn id .driven)
    (ha : .returned (.top id (s.sequence id).current) (some status) ∈ l)
    (hm : (t.sequence id).generation = (s.sequence id).generation ↔ ∀ e ∈ l, ¬ e.Moves id) :
    Ordered t (t.afterPlay id (s.sequence id) part (.ok status)) := by
  have hcur : (Record.replay id s.journal {}).current = (s.sequence id).current := by
    rw [← hs id]
    rfl
  have hsince : SinceDriven id l s.journal t.journal := ⟨hl, hd⟩
  let v := t.returning id (s.sequence id).current part
  have hgen : (v.sequence id).generation = (t.sequence id).generation := by
    rw [show v.sequence id = _ from t.sequence_modify_self _ ht]
    rfl
  have hv : Wider t v := .returning t id _ part
  by_cases hmove : status.isTerminal = true ∧
      (v.sequence id).generation = (s.sequence id).generation
  · have hw : Wider t ((v.note (.drove id status)).modify id
        (Sequence.advanced (s.sequence id).current)) := by
      apply (hv.note _).modify
      exact fun _ => rfl
    have hpos : t.afterPlay id (s.sequence id) part (.ok status) =
        (((v.note (.drove id status)).modify id (Sequence.advanced (s.sequence id).current)).note
          (.moved id .settled ((s.sequence id).current + 1))) := if_pos hmove
    have hfree := hm.mp (hgen.symm.trans hmove.2)
    rw [hpos]
    refine ⟨hw.note _, [.moved id .settled ((s.sequence id).current + 1), .drove id status], rfl,
      ?_⟩
    intro l₁ e l₂ heq
    rcases List.cons_eq_append_iff.mp heq with ⟨hl₁, h₁⟩ | ⟨m, hl₁, h₁⟩
    · obtain ⟨rfl, rfl⟩ := List.cons.inj h₁
      exact ⟨status, l, s.journal, t.journal, rfl, hmove.1, hsince, hfree, by rw [hcur]⟩
    · rcases List.cons_eq_append_iff.mp h₁ with ⟨rfl, h₂⟩ | ⟨m', -, h₂⟩
      · obtain ⟨rfl, rfl⟩ := List.cons.inj h₂
        have hmoved : l₁ = [] ++
            [.moved id .settled ((Record.replay id s.journal {}).current + 1)] := by
          rw [hl₁, hcur]
          rfl
        exact ⟨l, s.journal, hsince, by rw [hcur]; exact ha, fun _ _ => ⟨[], hmoved⟩⟩
      · exact absurd h₂ (by simp)
  · have hneg : t.afterPlay id (s.sequence id) part (.ok status) = v.note (.drove id status) :=
      if_neg hmove
    rw [hneg]
    refine note ((refl t).silent hv rfl) ⟨l, s.journal, hsince, by rw [hcur]; exact ha, ?_⟩
    intro hterm hfree
    exact absurd ⟨hterm, hgen.trans (hm.mpr hfree)⟩ hmove

end Ordered

theorem Incident.ordered {own : Site → Prop} {s t : Stage} (h : Incident own s t) (hs : s.Sound) :
    Ordered s t := by
  cases h with
  | aside h =>
    obtain ⟨l, hl, hr⟩ := h.journal
    have hw : Wider s t := .of_extends (.aside h : Extends Nowhere s t)
    exact .plain hw hl fun e he => e.isPlain_of_isRemark (hr e he)
  | called c _ => exact .note (.refl s) trivial
  | returned r _ => exact .note (.refl s) trivial
  | held h _ => exact .silent (.refl s) ⟨Nat.le_refl _, fun _ _ => rfl⟩ rfl
  | registered resolve o _ =>
    exact .silent (.refl s) (.of_extends (.enroll (.refl Nowhere s) rfl)) rfl
  | @registeredHeld slot q hq _ =>
    obtain ⟨resolve, o, rfl⟩ := hs.held slot q hq
    exact .silent (.refl s) (.of_extends (.enroll (.hold s _ : Extends Nowhere s _) rfl)) rfl
  | checked id => exact .modify (.refl s) id fun _ => rfl
  | paused id f => exact .modify (.refl s) id fun _ => rfl
  | started n _ _ => exact .starting s _ n
  | reset _ => exact .rewinding s _
  | restored index hn => exact .restoring s (hs.named _ _ hn).1 index
  | ended n _ _ => exact .ending s _ _ n
  | dropped id => exact .dropping (.refl s) id
  | unregistered name => exact .silent (.refl s) ⟨Nat.le_refl _, fun _ _ => rfl⟩ rfl
  | delisted id => exact .delist (.refl s) id
  | swept id => exact .sweep (.refl s) id
  | @turned id τ hτ =>
    apply Ordered.note (.refl s)
    cases τ <;> trivial

/-- A drive adds only entries that stand to what they say if what callbacks do in it does. -/
theorem Ordered.driven {run : Runner} {dt : Float32} {s t : Stage} {id : Nat} {part : Part}
    {r : Except Halt Status} {p : part.step.Progress} (hs : s.Sound) (ht : s.Tracked)
    (hd : Drive run dt s id part r p t) (h : Ordered (s.lending id) t) :
    Ordered s (t.afterPlay id (s.sequence id) ⟨part.step, p⟩ r) := by
  have hlt := hd.length (hd.leads.lasts (hs.lending id)).2
  apply (Ordered.driving ht hd h).trans
  cases r with
  | error e => exact (Ordered.refl t).silent (.returning t id _ _) rfl
  | ok status =>
    obtain ⟨l, hj, hspares, hrec⟩ := hd.notes hs
    apply Ordered.settling ht hlt hj
    · exact fun e he => (hspares e he).ne_driven
    · obtain ⟨l₁, l₂, ha⟩ := Conductor.playPart_answers hd.callbacks hd.play
      have hla : l = l₁ ++ .returned (.top id (s.sequence id).current) (some status) :: l₂ := by
        apply @List.append_cancel_right _ _ (s.lending id).journal
        rw [s.journal_lending, ← hj, List.append_assoc, List.cons_append]
        exact ha
      rw [hla]
      simp
    · have hgen := (Record.generation_replay hspares
        { (s.sequence id).record with entered := true }).2
      rw [← hrec] at hgen
      exact hgen

/-- Every course adds only entries that stand to what they say, also if it halts. -/
theorem Course.ordered {own : Site → Prop} {calm : Bool} {s t : Stage} (h : Course own calm s t)
    (hs : s.Sound) (ht : s.Tracked) : Ordered s t := by
  induction h with
  | single h => exact h.ordered hs
  | halt _ ih => exact ih hs ht
  | trans h _ ih ih' => exact (ih hs ht).trans (ih' (h.lasts hs).1 ((h.tells hs).tracked ht))
  | widen _ _ ih => exact ih hs ht
  | driven hd _ ih =>
    have hlent := (Tells.lending (Stage.lt_of_running _ hd.due.running)).tracked ht
    exact .driven hs ht hd (ih (hs.lending _) hlent)

theorem Stage.opening_tracked (settings : Settings) (host : Host) :
    (Stage.opening settings host).Tracked := by
  intro id
  rw [sequence_opening]
  rfl

/-- The cursor never gets past the end, at no point of the journal. -/
theorem Record.current_le {s : Stage}
    (h : ∀ l e j, s.journal = l ++ e :: j → e.Stands s l j) (id : Nat) (l j : List Entry)
    (hj : s.journal = l ++ j) : (replay id j {}).current ≤ (s.sequence id).stepCount := by
  induction j generalizing l with
  | nil => exact Nat.zero_le _
  | cons e j ih =>
    have hst := h l e j hj
    by_cases hm : e.Moves id
    · cases e with
      | moved i m c =>
        obtain rfl : i = id := hm
        have hc : (replay i (.moved i m c :: j) {}).current = c := by
          cases m <;> simp [after]
        rw [hc]
        cases m with
        | started =>
          rw [hst.1]
          exact Nat.zero_le _
        | reset =>
          rw [show c = 0 from hst]
          exact Nat.zero_le _
        | restored index =>
          rw [hst.2]
          exact Nat.min_le_right _ _
        | settled =>
          -- the step that settles is one that was driven, so it is there
          obtain ⟨status, since, before, j', rfl, -, ⟨rfl, -⟩, -, rfl⟩ := hst
          have hd := h (l ++ .moved i .settled _ :: .drove i status :: since) _ before
            (by rw [hj, List.append_assoc]; rfl)
          exact hd.2.1
      | _ => exact absurd hm (by simp [Entry.Moves])
    · rw [replay_cons, (after_unmoved hm _).1]
      exact ih (l ++ [e]) (by rw [hj]; simp)

/-- Whatever callbacks do, and wherever a run halts: the journal tells the cursor, at every point
it is at a step or right behind the last one, and every entry stands to what it says. So a turn
never finds the step missing, only starts, resets and restores move the cursor and a step that
settles after a drive in which none of them did, and if one did the step at the new cursor is
entered when the sequence is next driven. -/
theorem cursor_kept {calm : Bool} {settings : Settings} {host : Host} {s : Stage}
    (h : Session calm (.opening settings host) s) :
    (∀ id, (s.sequence id).record = Record.replay id s.journal {}) ∧
    (∀ id l j, s.journal = l ++ j →
      (Record.replay id j {}).current ≤ (s.sequence id).stepCount) ∧
    (∀ l e j, s.journal = l ++ e :: j → e.Stands s l j) ∧
    ∀ id l since m c j, s.journal = l ++ .turn id .driven :: (since ++ .moved id m c :: j) →
      (∀ e ∈ since, e ≠ .turn id .driven) → ∃ l' index n,
        l = l' ++ .called (.top id index) .enter :: n ∧ (∀ e ∈ n, ∃ m, e = .notice m) ∧
        index = (Record.replay id (since ++ .moved id m c :: j) {}).current := by
  have hs := Stage.opening_sound settings host
  have ht := Stage.opening_tracked settings host
  have hstands : ∀ l e j, s.journal = l ++ e :: j → e.Stands s l j := by
    obtain ⟨l', hl', hst⟩ := (h.leads.course.ordered hs ht).journal
    intro l e j hj
    rw [hl', show (Stage.opening settings host).journal = [] from rfl, List.append_nil] at hj
    have he := hst l e j hj
    rwa [show (Stage.opening settings host).journal = [] from rfl, List.append_nil] at he
  refine ⟨(h.leads.tells hs).tracked ht, Record.current_le hstands, hstands, ?_⟩
  intro id l since m c j hj hsince
  obtain ⟨-, -, -, l', call, n, rfl, hn, hcall⟩ := hstands l _ _ hj
  have hentered : (Record.replay id (since ++ .moved id m c :: j) {}).entered = false := by
    rw [Record.replay_append]
    apply Record.replay_not_entered hsince
    cases m <;> simp [Record.after]
  rw [hcall.mpr hentered]
  exact ⟨l', _, n, rfl, hn, rfl⟩

/-- A step that resets its own sequence settles without moving the cursor on. -/
theorem cursor_kept_reset_by_step :
    let a : Outline Command := { name := "a", steps := [.call [.reset "a"], .call []] }
    let l : List Command := [.register a, .start "a", .tick 1 none]
    let s := ((Stage.opening {} {}).run false l).2
    Session true (.opening {} {}) s ∧ (s.sequence 0).record = ⟨0, false, true, 2⟩ ∧
      Record.replay 0 s.journal {} = ⟨0, false, true, 2⟩ ∧
      ∀ l e j, s.journal = l ++ e :: j → e.Stands s l j := by
  intro a l s
  have hcalm : (Stage.opening {} {}).calmly l = true := by decide
  have h : Session true (.opening {} {}) s := hcalm ▸ Session.run false l (.opening {} {})
  have hr : (s.sequence 0).record = ⟨0, false, true, 2⟩ := by decide
  exact ⟨h, hr, ((cursor_kept h).1 0).symm.trans hr, (cursor_kept h).2.2.1⟩

end Sequencer
