import Sequencer.Proofs.Cursor

/-!
# Moments of a run

While a callback or a step runs, operations further out wait for it: a turn for the step it lent,
a stop, a removal or a completed turn for the callback that was told. A moment is a stage together
with these. What user code does while it runs is a course; it may begin an operation that waits in
turn, and once it has returned, the operation that waited for it does what is left of it.

So the moments reached from an opening are the stages between operations and those on which user
code runs, at any depth, and every later moment is reached from an earlier one. That user code runs
nowhere else is shown in `Moments.Runners`.
-/

set_option autoImplicit false

namespace Sequencer

open Site (Nowhere Within)

inductive Errand
  /-- A turn has lent the step at the cursor of the sequence `q`. -/
  | driving (id : Nat) (q : Sequence) (part : Part)
  | stopping (id : Nat)
  | removing (id : Nat)
  | completing (id : Nat)

namespace Errand

def id : Errand → Nat
  | .driving id _ _ => id
  | .stopping id => id
  | .removing id => id
  | .completing id => id

inductive Begins : Errand → Stage → Stage → Prop
  | driving {s : Stage} {id : Nat} {part : Part} : s.Due id → (s.sequence id).ticking = false →
      (s.sequence id).parts[(s.sequence id).current]? = some part →
      Begins (.driving id (s.sequence id) part) s (s.lending id)
  | stopping {s : Stage} {name : String} {id : Nat} (n : Notice) : s.find? name = some id →
      (s.sequence id).running = true → Begins (.stopping id) s (s.ending id .stopped n)
  | removing {s : Stage} {name : String} {id : Nat} (n : Notice) : s.find? name = some id →
      (s.sequence id).running = true →
      Begins (.removing id) s ((s.unregister name).ending id .stopped n)
  | completing {s : Stage} {id : Nat} (n : Notice) : s.Due id →
      (s.sequence id).stepCount ≤ (s.sequence id).current →
      Begins (.completing id) s ((s.note (.turn id .completed)).ending id .completed n)

inductive Ends : Errand → Stage → Stage → Prop
  | driven (s : Stage) (id : Nat) (q : Sequence) (part : Part) (p : part.step.Progress)
      (status : Status) : Ends (.driving id q part) s
        ((s.afterPlay id q ⟨part.step, p⟩ (.ok status)).sweep id)
  | broken (s : Stage) (id : Nat) (q : Sequence) (part : Part) (p : part.step.Progress)
      (h : Halt) : Ends (.driving id q part) s (s.afterPlay id q ⟨part.step, p⟩ (.error h))
  | stopped (s : Stage) (id : Nat) : Ends (.stopping id) s (s.dropping id)
  | removed (s : Stage) (id : Nat) : Ends (.removing id) s (s.delist id)
  | completed (s : Stage) (id : Nat) : Ends (.completing id) s (s.sweep id)
  | abandoned (s : Stage) {e : Errand} : (∀ id q part, e ≠ .driving id q part) → Ends e s s

def driven? : Errand → Option Nat
  | .driving id _ _ => some id
  | _ => none

end Errand

/-- A stage on which commands may be carried out, and the operations that wait there, innermost
first. -/
structure Moment where
  pending : List Errand
  stage : Stage

def calledFrom : List Errand → Site → Prop
  | [] => Nowhere
  | .driving id q _ :: _ => Within (.top id q.current)
  | _ :: rest => calledFrom rest

inductive Happens : Moment → Moment → Prop
  | course {pending : List Errand} {calm : Bool} {s t : Stage} :
      Leads (calledFrom pending) calm s t → Happens ⟨pending, s⟩ ⟨pending, t⟩
  | begins {pending : List Errand} {e : Errand} {s t : Stage} : e.Begins s t →
      Happens ⟨pending, s⟩ ⟨e :: pending, t⟩
  | ends {pending : List Errand} {e : Errand} {s t : Stage} : e.Ends s t →
      Happens ⟨e :: pending, s⟩ ⟨pending, t⟩

inductive Moment.Before (m : Moment) : Moment → Prop
  | refl : Moment.Before m m
  | step {k l : Moment} : Moment.Before m k → Happens k l → Moment.Before m l

/-- The moment is reached from a stage before the first command of the host. -/
def Moment.Reached (m : Moment) : Prop :=
  ∃ settings host, Moment.Before ⟨[], .opening settings host⟩ m

namespace Moment.Reached

variable {m k : Moment}

theorem opening (settings : Settings) (host : Host) :
    Reached ⟨[], .opening settings host⟩ := ⟨settings, host, .refl⟩

theorem step (h : m.Reached) (hk : Happens m k) : k.Reached := by
  obtain ⟨settings, host, h⟩ := h
  exact ⟨settings, host, h.step hk⟩

theorem later (h : m.Reached) (hk : m.Before k) : k.Reached := by
  induction hk with
  | refl => exact h
  | step _ hk ih => exact ih.step hk

/-- A moment that commands of the host lead to. -/
theorem of_session {calm : Bool} {settings : Settings} {host : Host} {s : Stage}
    (h : Session calm (.opening settings host) s) : Reached ⟨[], s⟩ :=
  (opening settings host).step (.course h.leads)

/-- What is done on a stage that was reached leads to stages that are reached. -/
theorem course {pending : List Errand} {own : Site → Prop} {calm : Bool} {s t : Stage}
    (h : Reached ⟨pending, s⟩) (hl : Leads own calm s t)
    (hw : ∀ σ, own σ → calledFrom pending σ ∨ σ.root = none) : Reached ⟨pending, t⟩ :=
  h.step (.course (hl.widen hw))

theorem command {pending : List Errand} {s : Stage} (h : Reached ⟨pending, s⟩) {run : Runner}
    (hrun : run.Follows) (c : Command) : Reached ⟨pending, (dispatch run c s).2⟩ :=
  h.step (.course (dispatch_follows hrun c s))

/-- The step at the cursor of a sequence that is due is lent. -/
theorem lent {pending : List Errand} {s : Stage} (h : Reached ⟨pending, s⟩) (id : Nat)
    (hd : s.Due id) (hfree : (s.sequence id).ticking = false)
    (hlen : (s.sequence id).current < (s.sequence id).parts.length) :
    ∃ part, Reached ⟨.driving id (s.sequence id) part :: pending, s.lending id⟩ :=
  ⟨_, h.step (.begins (.driving hd hfree (List.getElem?_eq_getElem hlen)))⟩

end Moment.Reached

/-! What every moment keeps -/

def Entry.Placed (s : Stage) : Entry → Prop
  | .moved _ .started c => c = 0
  | .moved _ .reset c => c = 0
  | .moved id (.restored i) c => id < s.sequences.length ∧ c = min i (s.sequence id).stepCount
  | _ => True

theorem Entry.Placed.mono {s t : Stage} {e : Entry} (h : e.Placed s) (hw : Wider s t) :
    e.Placed t := by
  cases e with
  | moved id m c =>
    cases m with
    | restored i =>
      obtain ⟨hid, hc⟩ := h
      exact ⟨Nat.lt_of_lt_of_le hid hw.length, by rw [hw.stepCount id hid]; exact hc⟩
    | _ => exact h
  | _ => trivial

theorem Entry.Stands.placed {s : Stage} {l j : List Entry} {e : Entry} (h : e.Stands s l j) :
    e.Placed s := by
  cases e with
  | moved id m c =>
    cases m with
    | started => exact h.1
    | reset => exact h
    | restored i => exact h
    | settled => trivial
  | _ => trivial

def Stage.Bounded (s : Stage) : Prop :=
  ∀ id, (s.sequence id).current ≤ (s.sequence id).stepCount

namespace Stage.Bounded

variable {s t : Stage}

theorem of_same (h : s.Bounded) (hq : ∀ i, t.sequence i = s.sequence i) : t.Bounded := by
  intro i
  rw [hq i]
  exact h i

theorem modify (h : s.Bounded) (id : Nat) {f : Sequence → Sequence}
    (hf : (s.sequence id).current ≤ (s.sequence id).stepCount →
      (f (s.sequence id)).current ≤ (f (s.sequence id)).stepCount) : (s.modify id f).Bounded := by
  intro i
  rcases s.sequence_modify_cases id i f with ⟨rfl, -, hq⟩ | ⟨-, hq⟩
  · rw [hq]
    exact hf (h i)
  · rw [hq]
    exact h i

theorem enroll (h : s.Bounded) {q : Sequence} (hq : q.current = 0) : (s.enroll q).Bounded := by
  intro i
  rw [Stage.sequence_enroll]
  split
  · rw [hq]
    exact Nat.zero_le _
  · exact h i

theorem begun (h : s.Bounded) (id : Nat) : (s.modify id Sequence.begun).Bounded :=
  h.modify id fun _ => Nat.zero_le _

theorem lending (h : s.Bounded) (id : Nat) : (s.lending id).Bounded := by
  have hn : (s.note (.turn id .driven)).Bounded := h
  exact (hn.modify id fun hle => hle).modify id fun hle => hle

/-- The cursor moves on from a step that is there, so it stays in bounds. -/
theorem afterPlay (h : s.Bounded) {id : Nat} {q : Sequence}
    (hc : q.current < (s.sequence id).stepCount) (part : Part) (r : Except Halt Status) :
    (s.afterPlay id q part r).Bounded := by
  have hr : (s.returning id q.current part).Bounded := by
    apply h.modify id
    intro hle
    exact Nat.le_trans hle (Nat.le_of_eq ((s.sequence id).stepCount_withPart q.current part).symm)
  cases r with
  | error e => exact hr
  | ok status =>
    simp only [Stage.afterPlay, Stage.advancing]
    split
    · have hn : ((s.returning id q.current part).note (.drove id status)).Bounded := hr
      apply hn.modify id
      intro _
      have hsame : ((s.returning id q.current part).sequence id).stepCount =
          (s.sequence id).stepCount := by
        apply s.field_modify Sequence.stepCount
        exact fun q' => q'.stepCount_withPart q.current part
      exact Nat.lt_of_lt_of_le hc (Nat.le_of_eq hsame.symm)
    · exact hr

end Stage.Bounded

theorem Incident.bounded {own : Site → Prop} {s t : Stage} (h : Incident own s t) (hs : s.Sound)
    (hb : s.Bounded) : t.Bounded := by
  cases h with
  | aside h => exact hb.of_same h.sequence
  | called c _ => exact hb
  | returned r _ => exact hb
  | held h _ => exact hb
  | registered resolve o _ => exact hb.enroll rfl
  | @registeredHeld slot q hq _ =>
    obtain ⟨resolve, o, rfl⟩ := hs.held slot q hq
    exact Stage.Bounded.enroll (s := { s with held := s.held.erase slot }) hb rfl
  | checked id => exact hb.modify id fun hle => hle
  | paused id f => exact hb.modify id fun hle => hle
  | @started _ id n _ _ => exact (hb.begun id).of_same fun i => by simp [Stage.starting]
  | reset _ => exact hb.modify _ fun _ => Nat.zero_le _
  | @restored _ id index _ =>
    have hq : (s.modify id (Sequence.resumed index)).Bounded :=
      hb.modify id fun _ => Nat.min_le_right index (s.sequence id).stepCount
    exact hq.of_same fun i => Stage.sequence_enlist _ id i
  | ended n _ _ => exact hb.modify _ fun hle => hle
  | dropped id => exact hb
  | unregistered name => exact hb
  | delisted id => exact hb
  | swept id => exact hb.of_same fun i => s.sequence_sweep id i
  | turned _ => exact hb

theorem Course.bounded {own : Site → Prop} {calm : Bool} {s t : Stage} (h : Course own calm s t)
    (hs : s.Sound) (hb : s.Bounded) : t.Bounded := by
  induction h with
  | single h => exact h.bounded hs hb
  | halt _ ih => exact ih hs hb
  | trans h _ ih ih' => exact ih' (h.lasts hs).1 (ih hs hb)
  | widen _ _ ih => exact ih hs hb
  | @driven own run dt s t id part r p hd h ih =>
    have hid := s.lt_of_running hd.due.running
    have hl := (h.lasts (hs.lending id)).2
    have hw := (Wider.of_extends hl).stepCount id (by rwa [s.length_lending])
    have hc : (s.sequence id).current < (t.sequence id).stepCount := by
      rw [hw, s.sequence_lending_self hid]
      exact (List.getElem?_eq_some_iff.mp hd.cursor).1
    exact (ih (hs.lending id) (hb.lending id)).afterPlay hc ⟨part.step, p⟩ r

structure Stage.Chronicled (s : Stage) : Prop where
  sound : s.Sound
  tracked : s.Tracked
  placed : ∀ e ∈ s.journal, e.Placed s
  bounded : s.Bounded

namespace Stage.Chronicled

variable {s t : Stage}

theorem opening (settings : Settings) (host : Host) : (Stage.opening settings host).Chronicled :=
  ⟨opening_sound settings host, opening_tracked settings host, by simp [Stage.opening],
    fun _ => Nat.le_refl _⟩

/-- A change that leaves the journal right. -/
theorem change (h : s.Chronicled) (ht : t.Sound) (hb : t.Bounded) (hw : Wider s t)
    (htells : Tells s t) (hplaced : ∀ l, t.journal = l ++ s.journal → ∀ e ∈ l, e.Placed t) :
    t.Chronicled := by
  refine ⟨ht, htells.tracked h.tracked, fun e he => ?_, hb⟩
  obtain ⟨l, hl, -⟩ := htells
  rw [hl] at he
  rcases List.mem_append.mp he with he | he
  · exact hplaced l hl e he
  · exact (h.placed e he).mono hw

theorem course {own : Site → Prop} {calm : Bool} (h : s.Chronicled) (hl : Leads own calm s t) :
    t.Chronicled := by
  obtain ⟨ht, he⟩ := hl.lasts h.sound
  refine h.change ht (hl.course.bounded h.sound h.bounded) (.of_extends he) (hl.tells h.sound)
    fun l hj e hmem => ?_
  obtain ⟨l', hj', hst⟩ := (hl.course.ordered h.sound h.tracked).journal
  obtain rfl : l' = l := List.append_cancel_right (hj'.symm.trans hj)
  obtain ⟨l₁, l₂, heq⟩ := List.append_of_mem hmem
  exact (hst l₁ e l₂ heq).placed

/-- A change that notes no moves. -/
theorem unmoved (h : s.Chronicled) (ht : t.Sound) (hb : t.Bounded) (hw : Wider s t)
    (htells : Tells s t) {l : List Entry} (hj : t.journal = l ++ s.journal)
    (hl : ∀ e ∈ l, e.Placed t) : t.Chronicled := by
  refine h.change ht hb hw htells fun l' hj' => ?_
  obtain rfl : l' = l := List.append_cancel_right (hj'.symm.trans hj)
  exact hl

theorem ending (h : s.Chronicled) {id : Nat} (hid : id < s.sequences.length) {hook : Hook}
    (hh : hook ≠ .started) (n : Notice) : (s.ending id hook n).Chronicled :=
  h.unmoved (h.sound.ending id hook n) (h.bounded.modify id fun hle => hle)
    (.of_extends (.ending s id hook n : Extends Nowhere s _)) (.ending hid hh n)
    (l := [.notified id _ hook _, .notice n]) rfl (by simp [Entry.Placed])

theorem unregister (h : s.Chronicled) (name : String) : (s.unregister name).Chronicled :=
  ⟨h.sound.unregister name, h.tracked, h.placed, h.bounded⟩

theorem note_turn (h : s.Chronicled) (id : Nat) {τ : Turn} (hτ : τ ≠ .driven) :
    (s.note (.turn id τ)).Chronicled := by
  have htells : Tells s (s.note (.turn id τ)) := by
    apply Tells.note (.refl s)
    intro i r
    cases τ <;> first | rfl | exact absurd rfl hτ
  refine h.unmoved (h.sound.note _) h.bounded ((Wider.refl s).note _) htells
    (l := [.turn id τ]) rfl ?_
  simp [Entry.Placed]

theorem lending (h : s.Chronicled) {id : Nat} (hid : id < s.sequences.length) :
    (s.lending id).Chronicled := by
  have hw : Wider s (s.lending id) := by
    refine ⟨Nat.le_of_eq (s.length_lending id).symm, fun i _ => ?_⟩
    by_cases hi : i = id
    · rw [hi, s.sequence_lending_self hid]
      rfl
    · rw [s.sequence_lending_ne hi]
  exact h.unmoved (h.sound.lending id) (h.bounded.lending id) hw (.lending hid)
    (l := [.turn id .driven]) rfl (by simp [Entry.Placed])

theorem delist (h : s.Chronicled) (id : Nat) : (s.delist id).Chronicled :=
  ⟨h.sound.same (.delist (.refl Nowhere s) id) rfl rfl, h.tracked, h.placed, h.bounded⟩

theorem sweep (h : s.Chronicled) (id : Nat) : (s.sweep id).Chronicled := by
  unfold Stage.sweep
  split
  · exact h
  · exact h.delist id

theorem dropping (h : s.Chronicled) (id : Nat) : (s.dropping id).Chronicled := by
  have hn : (s.note (.dropped id (s.sequence id).running)).Chronicled := by
    refine h.unmoved (h.sound.note _) h.bounded ((Wider.refl s).note _)
      (.note (.refl s) fun _ _ => rfl) (l := [.dropped id _]) rfl ?_
    simp [Entry.Placed]
  exact hn.delist id

theorem afterPlay (h : s.Chronicled) {id : Nat} (hid : id < s.sequences.length) {q : Sequence}
    (hc : q.current < (s.sequence id).stepCount) (part : Part) (r : Except Halt Status) :
    (s.afterPlay id q part r).Chronicled := by
  have hw : Wider s (s.returning id q.current part) := .returning s id q.current part
  have ht := h.sound.afterPlay id q part r
  have hb := h.bounded.afterPlay hc part r
  have htells := Tells.afterPlay hid q part r
  cases r with
  | error e => exact h.unmoved ht hb hw htells (l := []) rfl (by simp)
  | ok status =>
    simp only [Stage.afterPlay, Stage.advancing] at ht hb htells ⊢
    split
    · next hpos =>
      rw [if_pos hpos] at ht hb htells
      have hw' : Wider s (((s.returning id q.current part).note (.drove id status)).modify id
          (Sequence.advanced q.current)) := by
        apply (hw.note _).modify
        exact fun _ => rfl
      exact h.unmoved ht hb (hw'.note _) htells
        (l := [.moved id .settled (q.current + 1), .drove id status]) rfl (by simp [Entry.Placed])
    · next hneg =>
      rw [if_neg hneg] at ht hb htells
      exact h.unmoved ht hb (hw.note _) htells (l := [.drove id status]) rfl
        (by simp [Entry.Placed])

end Stage.Chronicled

/-- A step of the sequence, which was `q` when its turn came, is being called: the progress of the
steps is kept for it, and nobody else has driven the sequence or moved it on since. -/
structure Stage.OnLoan (s : Stage) (id : Nat) (q : Sequence) : Prop where
  lt : id < s.sequences.length
  ticking : (s.sequence id).ticking = true
  cursor : q.current < (s.sequence id).stepCount
  since : ∃ l j, s.journal = l ++ .turn id .driven :: j ∧
    (∀ e ∈ l, e.Spares (fun _ => True) id) ∧ (Record.replay id j {}).current = q.current

structure Stage.Spares (id : Nat) (s t : Stage) : Prop where
  length : s.sequences.length ≤ t.sequences.length
  ticking : (t.sequence id).ticking = (s.sequence id).ticking
  stepCount : (t.sequence id).stepCount = (s.sequence id).stepCount
  journal : ∃ l, t.journal = l ++ s.journal ∧ ∀ e ∈ l, e.Spares (fun _ => True) id

theorem Stage.OnLoan.spared {s t : Stage} {id : Nat} {q : Sequence} (h : s.OnLoan id q)
    (ht : Stage.Spares id s t) : t.OnLoan id q := by
  refine ⟨Nat.lt_of_lt_of_le h.lt ht.length, ht.ticking.trans h.ticking, ?_, ?_⟩
  · rw [ht.stepCount]
    exact h.cursor
  · obtain ⟨l, j, hj, hl, hc⟩ := h.since
    obtain ⟨l', hj', hl'⟩ := ht.journal
    refine ⟨l' ++ l, j, by rw [hj', hj, List.append_assoc], fun e he => ?_, hc⟩
    rcases List.mem_append.mp he with he | he
    · exact hl' e he
    · exact hl e he

namespace Stage.Spares

variable {s t u : Stage} {id : Nat}

theorem of_extends {own : Site → Prop} (h : Extends own s t) (hid : id < s.sequences.length)
    (ht : (s.sequence id).ticking = true) : Stage.Spares id s t := by
  obtain ⟨l, hl, hs⟩ := h.journal
  refine ⟨h.length, h.ticking id, ?_, l, hl, fun e he => ?_⟩
  · rw [← Sequence.length_steps, ← Sequence.length_steps, h.steps id hid]
  · exact (hs id ht e he).mono fun _ _ _ => trivial

theorem trans (h : Stage.Spares id s t) (h' : Stage.Spares id t u) : Stage.Spares id s u := by
  obtain ⟨l, hl, hs⟩ := h.journal
  obtain ⟨l', hl', hs'⟩ := h'.journal
  refine ⟨Nat.le_trans h.length h'.length, h'.ticking.trans h.ticking,
    h'.stepCount.trans h.stepCount, l' ++ l, by rw [hl', hl, List.append_assoc], fun e he => ?_⟩
  rcases List.mem_append.mp he with he | he
  · exact hs' e he
  · exact hs e he

theorem lending {i : Nat} (hi : i ≠ id) : Stage.Spares id s (s.lending i) := by
  have hq := s.sequence_lending_ne hi.symm
  refine ⟨Nat.le_of_eq (s.length_lending i).symm, by rw [hq], by rw [hq], [.turn i .driven], rfl,
    ?_⟩
  intro e he
  rw [List.mem_singleton.mp he]
  exact hi

theorem afterPlay {i : Nat} (hi : i ≠ id) (q : Sequence) (part : Part) (r : Except Halt Status) :
    Stage.Spares id s (s.afterPlay i q part r) := by
  have hq : (s.returning i q.current part).sequence id = s.sequence id :=
    s.sequence_modify_ne _ hi.symm
  have hlen : (s.returning i q.current part).sequences.length = s.sequences.length :=
    s.length_modify i _
  cases r with
  | error e =>
    have hq : (s.afterPlay i q part (.error e)).sequence id = s.sequence id := hq
    exact ⟨Nat.le_of_eq hlen.symm, by rw [hq], by rw [hq], [], rfl, by simp⟩
  | ok status =>
    simp only [Stage.afterPlay, Stage.advancing]
    split
    · have hq' : (((s.returning i q.current part).note (.drove i status)).modify i
          (Sequence.advanced q.current)).sequence id = s.sequence id :=
        (Stage.sequence_modify_ne _ _ hi.symm).trans hq
      refine ⟨?_, ?_, ?_, [.moved i .settled (q.current + 1), .drove i status], rfl, ?_⟩
      · simp [hlen]
      · rw [Stage.sequence_note, hq']
      · rw [Stage.sequence_note, hq']
      · intro e he
        simp only [List.mem_cons, List.not_mem_nil, or_false] at he
        rcases he with rfl | rfl
        · exact hi
        · trivial
    · refine ⟨Nat.le_of_eq hlen.symm, ?_, ?_, [.drove i status], rfl, by simp [Entry.Spares]⟩
      · rw [Stage.sequence_note, hq]
      · rw [Stage.sequence_note, hq]

end Stage.Spares

structure Moment.Kept (m : Moment) : Prop where
  chronicled : m.stage.Chronicled
  once : (m.pending.filterMap Errand.driven?).Nodup
  lent : ∀ id q part, .driving id q part ∈ m.pending → m.stage.OnLoan id q

namespace Errand

variable {e : Errand} {s t : Stage}

theorem Begins.chronicled (h : e.Begins s t) (hs : s.Chronicled) : t.Chronicled := by
  cases h with
  | driving hd _ _ => exact hs.lending (s.lt_of_running hd.running)
  | stopping n _ hr => exact hs.ending (s.lt_of_running hr) (by simp) n
  | @removing _ name id n _ hr =>
    exact (hs.unregister name).ending (s.lt_of_running hr) (by simp) n
  | @completing _ id n hd _ =>
    exact (hs.note_turn id (by simp)).ending (s.lt_of_running hd.running) (by simp) n

/-- An operation that begins leaves alone the sequences that are lent. -/
theorem Begins.spares (h : e.Begins s t) {id : Nat} {q : Sequence} (hl : s.OnLoan id q) :
    Stage.Spares id s t := by
  cases h with
  | @driving _ i part _ hfree _ =>
    apply Stage.Spares.lending
    rintro rfl
    rw [hl.ticking] at hfree
    exact absurd hfree (by simp)
  | @stopping _ _ i n _ _ =>
    exact .of_extends (.ending s i _ n : Extends Nowhere s _) hl.lt hl.ticking
  | @removing _ name i n _ _ =>
    have he : Extends Nowhere s ((s.unregister name).ending i .stopped n) :=
      (Extends.unregister s name).trans (.ending _ i _ n)
    exact .of_extends he hl.lt hl.ticking
  | @completing _ i n _ _ =>
    have hn : Extends Nowhere s (s.note (.turn i .completed)) :=
      .note (.refl Nowhere s) fun _ _ => trivial
    exact .of_extends (hn.trans (.ending _ i _ n)) hl.lt hl.ticking

/-- A step that is lent was at the cursor of a sequence that is there. -/
theorem Begins.lent {id : Nat} {q : Sequence} {part : Part} (hs : s.Chronicled)
    (h : Begins (.driving id q part) s t) : t.OnLoan id q ∧ (s.sequence id).ticking = false := by
  cases h with
  | driving hd hfree hp =>
    have hid := s.lt_of_running hd.running
    have hself := s.sequence_lending_self hid
    refine ⟨⟨by rwa [s.length_lending], by rw [hself], ?_, [], s.journal, rfl, by simp, ?_⟩, hfree⟩
    · rw [hself]
      exact (List.getElem?_eq_some_iff.mp hp).1
    · rw [← hs.tracked id]
      rfl

theorem Ends.chronicled (h : e.Ends s t) (hs : s.Chronicled)
    (hl : ∀ id q part, e = .driving id q part → s.OnLoan id q) : t.Chronicled := by
  cases h with
  | driven _ id q part p status =>
    have hlent := hl id q part rfl
    exact (hs.afterPlay hlent.lt hlent.cursor _ _).sweep id
  | broken _ id q part p h =>
    have hlent := hl id q part rfl
    exact hs.afterPlay hlent.lt hlent.cursor _ _
  | stopped _ id => exact hs.dropping id
  | removed _ id => exact hs.delist id
  | completed _ id => exact hs.sweep id
  | abandoned => exact hs

/-- An operation that ends leaves alone the other sequences that are lent. -/
theorem Ends.spares (h : e.Ends s t) {id : Nat} {q : Sequence} (hl : s.OnLoan id q)
    (he : e.driven? ≠ some id) : Stage.Spares id s t := by
  have of_extends : Extends Nowhere s t → Stage.Spares id s t :=
    fun h => .of_extends h hl.lt hl.ticking
  cases h with
  | driven _ i q' part p status =>
    have hi : i ≠ id := fun hi => he (congrArg some hi)
    have ht := Stage.Spares.afterPlay (s := s) hi q' ⟨part.step, p⟩ (.ok status)
    have hsweep : Extends Nowhere (s.afterPlay i q' ⟨part.step, p⟩ (.ok status)) _ :=
      .sweep (.refl Nowhere _) i
    have hl' := hl.spared ht
    exact ht.trans (.of_extends hsweep hl'.lt hl'.ticking)
  | broken _ i q' part p h =>
    exact .afterPlay (fun hi => he (congrArg some hi)) q' _ _
  | stopped _ i => exact of_extends (.dropping s i)
  | removed _ i => exact of_extends (.delist (.refl Nowhere s) i)
  | completed _ i => exact of_extends (.sweep (.refl Nowhere s) i)
  | abandoned => exact of_extends (.refl Nowhere s)

end Errand

theorem Happens.keeps {m k : Moment} (h : Happens m k) (hm : m.Kept) : k.Kept := by
  cases h with
  | @course pending calm s t hl =>
    refine ⟨hm.chronicled.course hl, hm.once, fun id q part he => ?_⟩
    have hlent := hm.lent id q part he
    exact hlent.spared (.of_extends (hl.lasts hm.chronicled.sound).2 hlent.lt hlent.ticking)
  | @begins pending e s t hb =>
    refine ⟨hb.chronicled hm.chronicled, ?_, fun id q part he => ?_⟩
    · cases e with
      | driving id q part =>
        refine List.nodup_cons.mpr ⟨fun hmem => ?_, hm.once⟩
        obtain ⟨e', he', hid⟩ := List.mem_filterMap.mp hmem
        cases e' with
        | driving id' q' part' =>
          obtain rfl := Option.some.inj hid
          have hfree := (hb.lent hm.chronicled).2
          rw [(hm.lent id' q' part' he').ticking] at hfree
          exact absurd hfree (by simp)
        | _ => exact absurd hid (by simp [Errand.driven?])
      | _ => exact hm.once
    · rcases List.mem_cons.mp he with rfl | he
      · exact (hb.lent hm.chronicled).1
      · have hlent := hm.lent id q part he
        exact hlent.spared (hb.spares hlent)
  | @ends pending e s t he =>
    refine ⟨he.chronicled hm.chronicled fun id q part heq => ?_, ?_, fun id q part hmem => ?_⟩
    · exact hm.lent id q part (by rw [heq]; exact List.mem_cons_self)
    · exact hm.once.sublist ((List.sublist_cons_self e pending).filterMap _)
    · have hlent := hm.lent id q part (List.mem_cons_of_mem _ hmem)
      refine hlent.spared (he.spares hlent fun hd => ?_)
      have honce := hm.once
      rw [List.filterMap_cons_some hd] at honce
      exact (List.nodup_cons.mp honce).1 (List.mem_filterMap.mpr ⟨_, hmem, rfl⟩)

theorem Moment.Reached.kept {m : Moment} (h : m.Reached) : m.Kept := by
  obtain ⟨settings, host, h⟩ := h
  induction h with
  | refl => exact ⟨.opening settings host, List.nodup_nil, by simp⟩
  | step _ h ih => exact h.keeps ih

end Sequencer
