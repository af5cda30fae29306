import Sequencer.Proofs.Stage
import Sequencer.Session

/-!
# Courses of events

What carrying out commands can do to the stage, as a relation that knows nothing of monads: the
acts that call nobody back are single changes, and an act that calls back stands around the
course of what its callbacks do. Proofs about all runs go by induction on courses.

User code is taken at its freest. A callback is a list of commands, but how a command of a
callback is carried out is left to any runner whose own runs are courses again, so it may look at
everything, choose what to do by it, and panic.
-/

set_option autoImplicit false

namespace Sequencer

namespace Entry

def isRemark : Entry → Bool
  | .notified .. => false
  | .called .. => false
  | .returned .. => false
  | .turn .. => false
  | .drove .. => false
  | .began _ => false
  | .restored .. => false
  | .moved .. => false
  | .dropped .. => false
  | _ => true

end Entry

namespace Site

def root : Site → Option Nat
  | .top id _ => some id
  | .held _ => none
  | .child parent _ => parent.root
  | .otherwise parent _ => parent.root

inductive Within (σ : Site) : Site → Prop
  | here : Within σ σ
  | child {τ : Site} (i : Nat) : Within σ τ → Within σ (.child τ i)
  | otherwise {τ : Site} (i : Nat) : Within σ τ → Within σ (.otherwise τ i)

def Below (σ τ : Site) : Prop := ∃ i, Within (.child σ i) τ ∨ Within (.otherwise σ i) τ

def From (σ : Site) (n : Nat) (τ : Site) : Prop := ∃ i, n ≤ i ∧ Within (.child σ i) τ

abbrev Nowhere : Site → Prop := fun _ => False

variable {σ τ υ : Site}

theorem Within.root_eq (h : σ.Within τ) : τ.root = σ.root := by
  induction h with
  | here => rfl
  | child _ _ ih => exact ih
  | otherwise _ _ ih => exact ih

theorem Within.trans (h : σ.Within τ) (h' : τ.Within υ) : σ.Within υ := by
  induction h' with
  | here => exact h
  | child i _ ih => exact .child i ih
  | otherwise i _ ih => exact .otherwise i ih

theorem Below.within (h : σ.Below τ) : σ.Within τ := by
  obtain ⟨i, h | h⟩ := h
  · exact (Within.here.child i).trans h
  · exact (Within.here.otherwise i).trans h

theorem Within.below_of_child {i : Nat} (h : (Site.child σ i).Within τ) : σ.Below τ := ⟨i, .inl h⟩

theorem Within.below_of_otherwise {i : Nat} (h : (Site.otherwise σ i).Within τ) : σ.Below τ :=
  ⟨i, .inr h⟩

theorem From.below {n : Nat} (h : σ.From n τ) : σ.Below τ := by
  obtain ⟨i, -, h⟩ := h
  exact h.below_of_child

theorem From.of_child {n : Nat} (h : (Site.child σ n).Within τ) : σ.From n τ :=
  ⟨n, Nat.le_refl n, h⟩

theorem From.of_succ {n : Nat} (h : σ.From (n + 1) τ) : σ.From n τ := by
  obtain ⟨i, hi, h⟩ := h
  exact ⟨i, by omega, h⟩

theorem below_child (i : Nat) : σ.Below (.child σ i) := Within.here.below_of_child

theorem below_otherwise (i : Nat) : σ.Below (.otherwise σ i) := Within.here.below_of_otherwise

end Site

structure Aside (s t : Stage) : Prop where
  settings : t.settings = s.settings
  sequences : t.sequences = s.sequences
  registry : t.registry = s.registry
  active : t.active = s.active
  held : t.held = s.held
  journal : ∃ l, t.journal = l ++ s.journal ∧ ∀ e ∈ l, e.isRemark = true

namespace Aside

variable {s t u : Stage}

theorem refl (s : Stage) : Aside s s := ⟨rfl, rfl, rfl, rfl, rfl, [], rfl, by simp⟩

theorem trans (h : Aside s t) (h' : Aside t u) : Aside s u := by
  obtain ⟨l, hl, hr⟩ := h.journal
  obtain ⟨l', hl', hr'⟩ := h'.journal
  refine ⟨h'.settings.trans h.settings, h'.sequences.trans h.sequences,
    h'.registry.trans h.registry, h'.active.trans h.active, h'.held.trans h.held, l' ++ l, ?_, ?_⟩
  · rw [hl', hl, List.append_assoc]
  · intro e he
    rcases List.mem_append.mp he with he | he
    · exact hr' e he
    · exact hr e he

theorem note (s : Stage) {e : Entry} (he : e.isRemark = true) : Aside s (s.note e) :=
  ⟨rfl, rfl, rfl, rfl, rfl, [e], rfl, by simpa using he⟩

theorem host (s : Stage) (h : Host) : Aside s { s with host := h } :=
  ⟨rfl, rfl, rfl, rfl, rfl, [], rfl, by simp⟩

theorem arrive (s : Stage) (barrier : String) : Aside s (s.arrive barrier) :=
  ⟨rfl, rfl, rfl, rfl, rfl, [.arrived barrier], rfl, by simp [Entry.isRemark]⟩

theorem sequence (h : Aside s t) (id : Nat) : t.sequence id = s.sequence id := by
  simp only [Stage.sequence, h.sequences]

theorem find? (h : Aside s t) (name : String) : t.find? name = s.find? name := by
  simp only [Stage.find?, h.registry]

end Aside

namespace Stage

def notify (id : Nat) (hook : Hook) (s : Stage) : Stage :=
  s.note (.notified id (s.sequence id).name hook ((s.sequence id).hook hook).isSome)

def ending (id : Nat) (hook : Hook) (n : Notice) (s : Stage) : Stage :=
  ((s.modify id Sequence.ended).note (.notice n)).notify id hook

def starting (id : Nat) (n : Notice) (s : Stage) : Stage :=
  (((((s.modify id Sequence.begun).note (.notice n)).note (.began id)).note
    (.moved id .started 0)).enlist id).notify id .started

def rewinding (id : Nat) (s : Stage) : Stage :=
  (s.modify id Sequence.rewound).note (.moved id .reset 0)

def restoring (id index : Nat) (s : Stage) : Stage :=
  let t := (s.modify id (Sequence.resumed index)).note (.restored id (s.sequence id).running)
  (t.note (.moved id (.restored index) (t.sequence id).current)).enlist id

def dropping (id : Nat) (s : Stage) : Stage :=
  (s.note (.dropped id (s.sequence id).running)).delist id

def sweep (id : Nat) (s : Stage) : Stage := if (s.sequence id).running then s else s.delist id

def lending (id : Nat) (s : Stage) : Stage :=
  ((s.note (.turn id .driven)).modify id fun q => { q with entered := true }).modify id
    fun q => { q with ticking := true }

def returning (id index : Nat) (part : Part) (s : Stage) : Stage :=
  s.modify id fun q => { q.withPart index part with ticking := false }

def advancing (id index generation : Nat) (status : Status) (s : Stage) : Stage :=
  if status.isTerminal ∧ (s.sequence id).generation = generation then
    (s.modify id (Sequence.advanced index)).note (.moved id .settled (index + 1))
  else s

end Stage

namespace Stage

variable (s : Stage)

@[simp] theorem sequence_notify (id i : Nat) (hook : Hook) :
    (s.notify id hook).sequence i = s.sequence i := rfl

@[simp] theorem registry_notify (id : Nat) (hook : Hook) :
    (s.notify id hook).registry = s.registry := rfl

@[simp] theorem active_notify (id : Nat) (hook : Hook) :
    (s.notify id hook).active = s.active := rfl

@[simp] theorem held_notify (id : Nat) (hook : Hook) : (s.notify id hook).held = s.held := rfl

@[simp] theorem journal_notify (id : Nat) (hook : Hook) : (s.notify id hook).journal =
    .notified id (s.sequence id).name hook ((s.sequence id).hook hook).isSome :: s.journal := rfl

@[simp] theorem registry_sweep (id : Nat) : (s.sweep id).registry = s.registry := by
  unfold sweep; split <;> rfl

@[simp] theorem held_sweep (id : Nat) : (s.sweep id).held = s.held := by
  unfold sweep; split <;> rfl

@[simp] theorem sequence_sweep (id i : Nat) : (s.sweep id).sequence i = s.sequence i := by
  unfold sweep; split <;> rfl

@[simp] theorem journal_sweep (id : Nat) : (s.sweep id).journal = s.journal := by
  unfold sweep; split <;> rfl

theorem length_lending (id : Nat) : (s.lending id).sequences.length = s.sequences.length := by
  simp [lending]

theorem journal_lending (id : Nat) : (s.lending id).journal = .turn id .driven :: s.journal := rfl

theorem sequence_lending_self {id : Nat} (h : id < s.sequences.length) :
    (s.lending id).sequence id = { s.sequence id with entered := true, ticking := true } := by
  rw [lending, sequence_modify_self _ _ (by simpa using h),
    sequence_modify_self (s.note (.turn id .driven)) _ h]
  rfl

theorem sequence_lending_ne {id i : Nat} (h : i ≠ id) :
    (s.lending id).sequence i = s.sequence i := by
  rw [lending, sequence_modify_ne _ _ h, sequence_modify_ne _ _ h]
  rfl

theorem parts_lending (id i : Nat) :
    ((s.lending id).sequence i).parts = (s.sequence i).parts :=
  (field_modify _ (·.parts) (f := fun q => { q with ticking := true }) (fun _ => rfl) id i).trans
    ((s.note (.turn id .driven)).field_modify (·.parts) (f := fun q => { q with entered := true })
      (fun _ => rfl) id i)

theorem lt_of_running {id : Nat} (h : (s.sequence id).running = true) :
    id < s.sequences.length := by
  by_cases hl : id < s.sequences.length
  · exact hl
  · rw [s.sequence_of_length_le (by omega)] at h
    exact absurd h (by simp)

theorem lt_of_ticking {id : Nat} (h : (s.sequence id).ticking = true) :
    id < s.sequences.length := by
  by_cases hl : id < s.sequences.length
  · exact hl
  · rw [s.sequence_of_length_le (by omega)] at h
    exact absurd h (by simp)

end Stage

def Stage.afterPlay (id : Nat) (q : Sequence) (part : Part) :
    Except Halt Status → Stage → Stage
  | .ok status, s => ((s.returning id q.current part).note (.drove id status)).advancing id
      q.current q.generation status
  | .error _, s => s.returning id q.current part

namespace Stage

variable (s : Stage) (id : Nat) (q : Sequence) (part : Part) (r : Except Halt Status)

theorem journal_afterPlay : ∃ l, (s.afterPlay id q part r).journal = l ++ s.journal := by
  cases r with
  | error e => exact ⟨[], rfl⟩
  | ok status =>
    simp only [afterPlay, advancing]
    split
    · exact ⟨[.moved id .settled (q.current + 1), .drove id status], rfl⟩
    · exact ⟨[.drove id status], rfl⟩

theorem length_afterPlay : (s.afterPlay id q part r).sequences.length = s.sequences.length := by
  cases r with
  | error e => exact s.length_modify id _
  | ok status =>
    simp only [afterPlay, advancing]
    split <;> simp [returning]

theorem active_afterPlay : (s.afterPlay id q part r).active = s.active := by
  cases r with
  | error e => rfl
  | ok status =>
    simp only [afterPlay, advancing]
    split <;> rfl

theorem registry_afterPlay : (s.afterPlay id q part r).registry = s.registry := by
  cases r with
  | error e => rfl
  | ok status =>
    simp only [afterPlay, advancing]
    split <;> rfl

theorem sequence_afterPlay_ne {i : Nat} (h : i ≠ id) :
    (s.afterPlay id q part r).sequence i = s.sequence i := by
  cases r with
  | error e => exact s.sequence_modify_ne _ h
  | ok status =>
    simp only [afterPlay, advancing]
    split <;> simp [returning, sequence_modify_ne _ _ h]

theorem parts_afterPlay {id : Nat} (hid : id < s.sequences.length) :
    ((s.afterPlay id q part r).sequence id).parts = (s.sequence id).parts.set q.current part := by
  have hback : ((s.returning id q.current part).sequence id).parts =
      (s.sequence id).parts.set q.current part := by
    rw [returning, s.sequence_modify_self _ hid]
    rfl
  cases r with
  | error e => exact hback
  | ok status =>
    simp only [afterPlay, advancing]
    split
    · exact (((s.returning id q.current part).note (.drove id status)).field_modify (·.parts)
        (f := Sequence.advanced q.current) (fun _ => rfl) id id).trans hback
    · exact hback

theorem running_afterPlay (i : Nat) :
    ((s.afterPlay id q part r).sequence i).running = (s.sequence i).running := by
  have hback : ((s.returning id q.current part).sequence i).running = (s.sequence i).running := by
    apply s.field_modify (·.running)
    exact fun _ => rfl
  cases r with
  | error e => exact hback
  | ok status =>
    simp only [afterPlay, advancing]
    split
    · exact (((s.returning id q.current part).note (.drove id status)).field_modify (·.running)
        (f := Sequence.advanced q.current) (fun _ => rfl) id i).trans hback
    · exact hback

end Stage

structure Stage.Due (s : Stage) (id : Nat) : Prop where
  unpaused : (s.sequence id).paused = false
  running : (s.sequence id).running = true

/-- `Leads own calm s t`: a course of events leads from `s` to `t`. It is calm if nothing in it
halts, and of the steps that belong to sequences it calls for itself only those at `own` sites. -/
inductive Leads : (Site → Prop) → Bool → Stage → Stage → Prop
  | aside {own : Site → Prop} {s t : Stage} : Aside s t → Leads own true s t
  | halt {own : Site → Prop} {calm : Bool} {s t : Stage} :
      Leads own calm s t → Leads own false s t
  | trans {own : Site → Prop} {calm calm' : Bool} {s t u : Stage} :
      Leads own calm s t → Leads own calm' t u → Leads own (calm && calm') s u
  | widen {own own' : Site → Prop} {calm : Bool} {s t : Stage} :
      (∀ σ, own σ → own' σ ∨ σ.root = none) → Leads own calm s t → Leads own' calm s t
  | called {own : Site → Prop} (s : Stage) {σ : Site} (c : Call) :
      own σ ∨ σ.root = none → Leads own true s (s.note (.called σ c))
  | returned {own : Site → Prop} (s : Stage) {σ : Site} (r : Option Status) :
      own σ ∨ σ.root = none → Leads own true s (s.note (.returned σ r))
  /-- A sequence in the hands of the host is one that was just built. -/
  | held {own : Site → Prop} (s : Stage) (h : Table String Held)
      (built : ∀ slot q, h.get? slot = some (.sequence q) →
        s.held.get? slot = some (.sequence q) ∨ ∃ resolve o, q = Sequence.build resolve o) :
      Leads own true s { s with held := h }
  | registered {own : Site → Prop} {s : Stage} (resolve : String → EntityId)
      (o : Outline Command) : s.find? o.name = none →
      Leads own true s (s.enroll (Sequence.build resolve o))
  | registeredHeld {own : Site → Prop} {s : Stage} {slot : String} {q : Sequence} :
      s.held.get? slot = some (.sequence q) → s.find? q.name = none →
      Leads own true s ({ s with held := s.held.erase slot }.enroll q)
  | checked {own : Site → Prop} (s : Stage) (id : Nat) :
      Leads own true s (s.modify id fun q => { q with validators := [] })
  | paused {own : Site → Prop} (s : Stage) (id : Nat) (f : Bool → Bool) :
      Leads own true s (s.modify id fun q => { q with paused := f q.paused })
  | started {own : Site → Prop} {s : Stage} {name : String} {id : Nat} (n : Notice) :
      s.find? name = some id → (s.sequence id).running = false →
      Leads own true s (s.starting id n)
  | reset {own : Site → Prop} {s : Stage} {name : String} {id : Nat} :
      s.find? name = some id → Leads own true s (s.rewinding id)
  | restored {own : Site → Prop} {s : Stage} {name : String} {id : Nat} (index : Nat) :
      s.find? name = some id → Leads own true s (s.restoring id index)
  | stoppedIdle {own : Site → Prop} {s : Stage} {name : String} {id : Nat} :
      s.find? name = some id → (s.sequence id).running = false →
      Leads own true s (s.dropping id)
  | stopped {own : Site → Prop} {calm : Bool} {s t : Stage} {name : String} {id : Nat}
      (n : Notice) : s.find? name = some id → (s.sequence id).running = true →
      Leads own calm (s.ending id .stopped n) t →
      Leads own calm s (if calm then t.dropping id else t)
  | removedIdle {own : Site → Prop} {s : Stage} {name : String} {id : Nat} :
      s.find? name = some id → (s.sequence id).running = false →
      Leads own true s ((s.unregister name).delist id)
  | removed {own : Site → Prop} {calm : Bool} {s t : Stage} {name : String} {id : Nat}
      (n : Notice) : s.find? name = some id → (s.sequence id).running = true →
      Leads own calm ((s.unregister name).ending id .stopped n) t →
      Leads own calm s (if calm then t.delist id else t)
  | passed {own : Site → Prop} {s : Stage} {id : Nat} : (s.sequence id).paused = true →
      Leads own true s (s.note (.turn id .paused))
  | idle {own : Site → Prop} {s : Stage} {id : Nat} : (s.sequence id).paused = false →
      (s.sequence id).running = false → Leads own true s ((s.note (.turn id .idle)).sweep id)
  | completed {own : Site → Prop} {calm : Bool} {s t : Stage} {id : Nat} (n : Notice) :
      s.Due id → (s.sequence id).stepCount ≤ (s.sequence id).current →
      Leads own calm ((s.note (.turn id .completed)).ending id .completed n) t →
      Leads own calm s (if calm then t.sweep id else t)
  | busy {own : Site → Prop} {s : Stage} {id : Nat} : s.Due id →
      (s.sequence id).current < (s.sequence id).stepCount → (s.sequence id).ticking = true →
      Leads own true s ((s.note (.turn id .busy)).sweep id)
  | driven {own : Site → Prop} {s t : Stage} {id : Nat} {part : Part} (run : Runner)
      (dt : Float32) {r : Except Halt Status} {p : part.step.Progress} : s.Due id →
      (s.sequence id).ticking = false →
      (s.sequence id).parts[(s.sequence id).current]? = some part →
      (∀ c u, Leads Site.Nowhere (run c u).1.isOk u (run c u).2) →
      Conductor.playPart run dt id (s.sequence id) part (part.progress, s.lending id) =
        (r, p, t) →
      Leads (Site.Within (.top id (s.sequence id).current)) r.isOk (s.lending id) t →
      Leads own r.isOk s (let u := t.afterPlay id (s.sequence id) ⟨part.step, p⟩ r
        if r.isOk then u.sweep id else u)

end Sequencer
