import Sequencer.Proofs.Course.Session
import Sequencer.Proofs.Lasting
import Sequencer.Proofs.Timing.Steps

/-!
# When steps and sequences settle

From the leaves up: if the frames and the outcome of every leaf are known, so are those of every
tree of composite steps over them, and the frame in which a sequence of such trees completes.
-/

set_option autoImplicit false

namespace Sequencer

mutual

/-- The timing of a tree of steps, from that of its leaves. A leaf may be any step whose timing is
known. -/
inductive Charted (E : Surroundings) : Step Command → Timing → Prop
  | leaf {s : Step Command} {d : Timing} : s.Fixed E d → Charted E s d
  | group {steps : List (Step Command)} {ds : List Timing} : ChartedList E steps ds →
      Charted E (.group steps) (.group ds)
  | choose {question : Question Command} {answer : Bool} {yes no : List (Step Command)}
      {ds : List Timing} : question.Constant E answer →
      ChartedList E (if answer then yes else no) ds → Charted E (.choose question yes no) (.choice ds)
  | retry {steps : List (Step Command)} {ds : List Timing} (attempts : UInt32) :
      ChartedList E steps ds → Charted E (.retry attempts steps) (.retry attempts.toNat ds)
  | parallel {steps : List (Step Command)} {ds : List Timing} (mode : Quorum) :
      ChartedList E steps ds → Charted E (.parallel mode steps) (.parallel mode ds)

inductive ChartedList (E : Surroundings) : List (Step Command) → List Timing → Prop
  | nil : ChartedList E [] []
  | cons {s : Step Command} {d : Timing} {steps : List (Step Command)} {ds : List Timing} :
      Charted E s d → ChartedList E steps ds → ChartedList E (s :: steps) (d :: ds)

end

mutual

theorem Charted.fixed {E : Surroundings} : {s : Step Command} → {d : Timing} → Charted E s d →
    s.Fixed E d
  | _, _, .leaf h => h
  | _, _, .group h => .group h.fixed
  | _, _, .choose hq h => .choose hq h.fixed
  | _, _, .retry attempts h => .retry attempts h.fixed
  | _, _, .parallel mode h => .parallel mode h.fixed

theorem ChartedList.fixed {E : Surroundings} : {l : List (Step Command)} → {ds : List Timing} →
    ChartedList E l ds → List.Forall₂ (Step.Fixed E) l ds
  | _, _, .nil => .nil
  | _, _, .cons h hrest => .cons h.fixed hrest.fixed

end

section

variable (E : Surroundings)

/-- A wait of some frames takes them, and one at least. -/
theorem Step.Fixed.frames (count : UInt32) :
    (Step.frames (κ := Command) count).Fixed E ⟨max count.toNat 1, true⟩ where
  positive := by
    show 0 < max count.toNat 1
    omega
  settles cue _ := by
    apply Surroundings.Yields.change (f := fun _ : UInt32 => 0)
    intro _ _
    apply Surroundings.Lasts.of_invariant
      (I := fun n (counted : UInt32) => counted.toNat + n = max count.toNat 1)
    · intro n counted dt _ hcounted
      have hlt := count.toNat_lt
      have hnext : (counted + 1).toNat = counted.toNat + 1 := by
        rw [UInt32.toNat_add, UInt32.toNat_one]
        omega
      have hdone : counted + 1 ≥ count ↔ n = 0 := by
        rw [ge_iff_le, UInt32.le_iff_toNat_le, hnext]
        omega
      apply Surroundings.Yields.read
      rintro p rfl
      apply Surroundings.Yields.bind (Q := fun _ q => q = p + 1)
      · exact .change (f := fun _ => p + 1) fun _ _ => rfl
      intro _
      apply Surroundings.Yields.pure
      rintro q rfl
      refine ⟨?_, by omega⟩
      by_cases hn : n = 0
      · rw [if_pos (hdone.mpr hn), hn]
        rfl
      · rw [if_neg (mt hdone.mp hn), Status.due_pos _ (by omega)]
    · exact fun p _ => exits_trivially p
    · show (0 : UInt32).toNat + max count.toNat 1 = max count.toNat 1
      simp

/-- A step of the host that does nothing and always gives the same answer. -/
theorem Step.Fixed.bare (ok : Bool) :
    (Step.bare (κ := Command) [.ofOutcome ok]).Fixed E ⟨1, ok⟩ where
  positive := Nat.one_pos
  settles cue _ := by
    have hscript : ∀ used, scripted Status.succeeded [Status.ofOutcome ok] used = .ofOutcome ok :=
      fun used => by simp [scripted]
    rintro (used : Nat) s - hs
    refine ⟨(), used, s, rfl, ?_, hs, .refl s⟩
    rintro dt - used s rfl hs
    refine ⟨scripted .succeeded [.ofOutcome ok] used, Nat.succ used, s, rfl,
      ⟨hscript used, ?_⟩, hs, .refl s⟩
    rintro _ s rfl hs
    exact ⟨(), _, s, rfl, trivial, hs, .refl s⟩

end

/-! Sequences -/

namespace Surroundings

/-- Given a turn in each frame, with nobody else touching it meanwhile, a sequence has a step to
drive in `n` frames, and completes in the next one. -/
def Completes (E : Surroundings) (id : Nat) : Nat → Sequence → Prop
  | 0, q => ∀ dt s, s.sequence id = q → Conductor.takeTurn E.run dt id s =
      match Conductor.finish E.run id (s.note (.turn id .completed)) with
        | (.ok _, t) => (.ok (), t.sweep id)
        | (.error e, t) => (.error e, t)
  | n + 1, q => q.current < q.stepCount ∧
    ∀ dt s, E.dts dt → E.world s → s.sequence id = q →
      ∃ t, Conductor.takeTurn E.run dt id s = (.ok (), t) ∧ E.world t ∧
        E.Completes id n (t.sequence id)

end Surroundings

structure Sequence.Ahead (E : Surroundings) (id : Nat) (ds rest : List Timing) (q : Sequence) :
    Prop where
  name : q.name = E.owner
  running : q.running = true
  unpaused : q.paused = false
  free : q.ticking = false
  fixed : List.Forall₂ (Step.Fixed E) q.steps ds
  left : ∀ part ∈ q.parts, part.step.Left (part.step.fresh E.resolve) part.progress
  positive : Timing.AllPositive rest
  cursor : q.current + rest.length = ds.length
  next : q.entered = false → rest = ds.drop q.current
  underway : q.entered = true → ∃ d tail, rest = d :: tail ∧ tail = ds.drop (q.current + 1) ∧
    ∃ part, q.parts[q.current]? = some part ∧
      part.step.Goes E ⟨q.name, .top id q.current⟩ d.ok d.ticks part.progress

namespace Sequence

variable {E : Surroundings} {id : Nat} {ds rest : List Timing} {q : Sequence}

theorem Ahead.completes_now (h : q.Ahead E id ds []) : E.Completes id 0 q := by
  rintro dt s rfl
  have hend : (s.sequence id).stepCount ≤ (s.sequence id).current := by
    have hlength := h.fixed.length_eq
    have hcursor := h.cursor
    rw [Sequence.length_steps] at hlength
    simp only [List.length_nil] at hcursor
    omega
  rewrite [Conductor.takeTurn_unpaused h.unpaused, Conductor.turn_completed h.running hend]
  rfl

def driven (q : Sequence) (part : Part) (status : Status) : Sequence :=
  let q' := q.withPart q.current part
  if status.isTerminal then { q' with entered := false, current := q.current + 1 }
  else { q' with entered := true }

end Sequence

/-- A step comes back that has left its own sequence alone. -/
theorem Stage.sequence_returning {s t : Stage} {id : Nat} (hid : id < s.sequences.length)
    (hfree : (s.sequence id).ticking = false) (hidt : id < t.sequences.length)
    (ht : t.sequence id = (s.lending id).sequence id) (part : Part) :
    (t.returning id (s.sequence id).current part).sequence id =
      { (s.sequence id).withPart (s.sequence id).current part with entered := true } := by
  have hlent : t.sequence id = { s.sequence id with entered := true, ticking := true } :=
    ht.trans (s.sequence_lending_self hid)
  rw [Stage.returning, Stage.sequence_modify_self _ _ hidt, hlent]
  simp only [Sequence.withPart, hfree]

theorem Stage.sequence_afterPlay_ok {s t : Stage} {id : Nat} (hid : id < s.sequences.length)
    (hfree : (s.sequence id).ticking = false) (hidt : id < t.sequences.length)
    (ht : t.sequence id = (s.lending id).sequence id) (part : Part) (status : Status) :
    (t.afterPlay id (s.sequence id) part (.ok status)).sequence id =
      (s.sequence id).driven part status := by
  have hback := Stage.sequence_returning hid hfree hidt ht part
  simp only [Stage.afterPlay, Stage.advancing, Sequence.driven]
  have hgeneration : (((t.returning id (s.sequence id).current part).note
      (.drove id status)).sequence id).generation = (s.sequence id).generation := by
    rw [Stage.sequence_note, hback]
    rfl
  cases hterminal : status.isTerminal with
  | false => simpa using hback
  | true =>
    rw [if_pos ⟨rfl, hgeneration⟩, if_pos rfl, Stage.sequence_note,
      Stage.sequence_modify_self _ _ (by simpa [Stage.returning] using hidt), Stage.sequence_note,
      hback]
    rfl

theorem Sequence.steps_driven {q : Sequence} {part : Part} (h : q.parts[q.current]? = some part)
    (p : part.step.Progress) (status : Status) :
    (q.driven ⟨part.step, p⟩ status).steps = q.steps := by
  rw [← Sequence.steps_withPart h p]
  unfold driven
  split <;> rfl

namespace Sequence.Ahead

variable {E : Surroundings} {id : Nat} {ds : List Timing} {q : Sequence}

/-- The play with the step at the cursor brings that step one frame nearer to its end. -/
theorem play {d : Timing} {tail : List Timing} (h : q.Ahead E id ds (d :: tail)) {part : Part}
    (hpart : q.parts[q.current]? = some part) {dt : Float32} (hdt : E.dts dt) {n : Nat}
    (hn : d.ticks = n + 1) :
    E.Yields (· = part.progress) (Conductor.playPart E.run dt id q part) fun status p =>
      (status = .due d.ok n ∧
        (0 < n → part.step.Goes E ⟨q.name, .top id q.current⟩ d.ok n p)) ∧
      part.step.Left (part.step.fresh E.resolve) p := by
  have hleft := h.left part (List.mem_of_getElem? hpart)
  have hkeeps : (Conductor.playPart E.run dt id q part).Keeps
      (part.step.Left (part.step.fresh E.resolve)) :=
    Cue.drive_keeps _ (part.step.enter_left _ _ _) (part.step.tick_left _ _ _ dt)
      (part.step.exit_left _ _ _)
  have hdrive : E.Yields (· = part.progress) (Conductor.playPart E.run dt id q part)
      fun status p => status = .due d.ok n ∧
        (0 < n → part.step.Goes E ⟨q.name, .top id q.current⟩ d.ok n p) := by
    apply Cue.drive_yields (c := ⟨q.name, .top id q.current⟩) hdt
    · intro he
      have hd : ds[q.current]? = some d := by
        have hdrop := congrArg List.head? (h.next (by simpa using he))
        rw [List.head?_drop] at hdrop
        exact hdrop.symm
      have hstep : q.steps[q.current]? = some part.step := by
        simp only [Sequence.steps, List.getElem?_map, hpart, Option.map_some]
      obtain ⟨hi, hs⟩ := List.getElem?_eq_some_iff.mp hstep
      obtain ⟨hi', hd⟩ := List.getElem?_eq_some_iff.mp hd
      have hfixed := h.fixed.get hi hi'
      simp only [List.get_eq_getElem, hs, hd] at hfixed
      rw [← hn]
      apply (hfixed.settles _ h.name).mono
      · rintro p rfl
        exact hleft
      · exact fun _ _ hp => hp
    · rintro he p rfl
      obtain ⟨d', tail', heq, -, part', hpart', hgoes⟩ := h.underway (by simpa using he)
      obtain ⟨rfl, -⟩ := List.cons.inj heq
      rw [hpart] at hpart'
      obtain rfl := Option.some.inj hpart'
      rw [hn] at hgoes
      exact hgoes
  apply (hdrive.keeping hkeeps).mono
  · rintro p rfl
    exact ⟨rfl, hleft⟩
  · exact fun _ _ hp => hp

/-- What is due after the step at the cursor was driven. -/
theorem driven {d : Timing} {tail : List Timing} (h : q.Ahead E id ds (d :: tail)) {part : Part}
    (hpart : q.parts[q.current]? = some part) {n : Nat} (hn : d.ticks = n + 1)
    {p : part.step.Progress} (hleft : part.step.Left (part.step.fresh E.resolve) p)
    (hgoes : 0 < n → part.step.Goes E ⟨q.name, .top id q.current⟩ d.ok n p) :
    (q.driven ⟨part.step, p⟩ (.due d.ok n)).Ahead E id ds
      (if n = 0 then tail else ⟨n, d.ok⟩ :: tail) := by
  have hsteps := Sequence.steps_driven hpart p (.due d.ok n)
  have hparts : ∀ other ∈ q.parts.set q.current ⟨part.step, p⟩,
      other.step.Left (other.step.fresh E.resolve) other.progress := by
    intro other hother
    rcases List.mem_or_eq_of_mem_set hother with hold | rfl
    · exact h.left other hold
    · exact hleft
  have htail : tail = ds.drop (q.current + 1) := by
    cases he : q.entered with
    | false =>
      have hdrop := congrArg List.tail (h.next he)
      rwa [List.tail_drop] at hdrop
    | true =>
      obtain ⟨d', tail', heq, htail, -⟩ := h.underway he
      obtain ⟨-, rfl⟩ := List.cons.inj heq
      exact htail
  have hpositive : Timing.AllPositive tail := fun x hx => h.positive x (List.mem_cons_of_mem _ hx)
  have hcursor := h.cursor
  simp only [List.length_cons] at hcursor
  by_cases hzero : n = 0
  · subst hzero
    have hq : q.driven ⟨part.step, p⟩ (.due d.ok 0) =
        { q.withPart q.current ⟨part.step, p⟩ with entered := false, current := q.current + 1 } :=
      if_pos (Status.isTerminal_ofOutcome d.ok)
    rw [if_pos rfl, hq]
    rw [hq] at hsteps
    refine ⟨h.name, h.running, h.unpaused, h.free, hsteps ▸ h.fixed, hparts, hpositive, ?_,
      fun _ => htail, fun he => absurd he (by simp)⟩
    show q.current + 1 + tail.length = ds.length
    omega
  · have hq : q.driven ⟨part.step, p⟩ (.due d.ok n) =
        { q.withPart q.current ⟨part.step, p⟩ with entered := true } := by
      apply if_neg
      rw [Status.isTerminal_due]
      simpa using hzero
    rw [if_neg hzero, hq]
    rw [hq] at hsteps
    refine ⟨h.name, h.running, h.unpaused, h.free, hsteps ▸ h.fixed, hparts, ?_, ?_,
      fun he => absurd he (by simp), fun _ => ⟨_, tail, rfl, htail, ⟨part.step, p⟩, ?_, ?_⟩⟩
    · intro x hx
      rcases List.mem_cons.mp hx with rfl | hx
      · show 0 < n
        omega
      · exact hpositive x hx
    · show q.current + (tail.length + 1) = ds.length
      omega
    · have hlt : q.current < q.parts.length := (List.getElem?_eq_some_iff.mp hpart).1
      show (q.parts.set q.current ⟨part.step, p⟩)[q.current]? = _
      rw [List.getElem?_set_self hlt]
    · exact hgoes (by omega)

/-- A frame drives the sequence, and leaves one frame less to go. -/
theorem frame (hworld : ∀ s f, E.world s → E.world (s.modify id f)) {n : Nat} {rest : List Timing}
    (hn : Timing.span .advance rest = n + 1) {dt : Float32} (hdt : E.dts dt) {s : Stage}
    (hs : E.world s) (h : (s.sequence id).Ahead E id ds rest) :
    ∃ t, Conductor.takeTurn E.run dt id s = (.ok (), t) ∧ E.world t ∧
      ∃ rest', Timing.span .advance rest' = n ∧ (t.sequence id).Ahead E id ds rest' := by
  cases rest with
  | nil => exact absurd hn (by simp [Timing.span])
  | cons d tail =>
    have hlt : (s.sequence id).current < (s.sequence id).parts.length := by
      have hlength := h.fixed.length_eq
      have hcursor := h.cursor
      rw [Sequence.length_steps] at hlength
      simp only [Sequence.stepCount, List.length_cons] at hlength hcursor
      omega
    have hpart := List.getElem?_eq_getElem hlt
    generalize (s.sequence id).parts[(s.sequence id).current] = part at hpart
    have hd : 0 < d.ticks := h.positive d List.mem_cons_self
    obtain ⟨m, hm⟩ : ∃ m, d.ticks = m + 1 := ⟨d.ticks - 1, by omega⟩
    have hlent : E.world (s.lending id) := hworld _ _ (hworld _ _ (E.noted s _ hs))
    obtain ⟨status, p, u, hplay, ⟨⟨rfl, hgoes⟩, hleft⟩, hu, hhands⟩ :=
      h.play hpart hdt hm part.progress (s.lending id) rfl hlent
    have hid : id < s.sequences.length := s.lt_of_running h.running
    have hidu : id < u.sequences.length := by
      rw [hhands.sequences, s.length_lending]
      exact hid
    have hkept : u.sequence id = (s.lending id).sequence id := by
      simp only [Stage.sequence, hhands.sequences]
    have hafter := Stage.sequence_afterPlay_ok hid h.free hidu hkept ⟨part.step, p⟩ (.due d.ok m)
    have hahead := h.driven hpart hm hleft hgoes
    rw [← hafter] at hahead
    refine ⟨u.afterPlay id (s.sequence id) ⟨part.step, p⟩ (.ok (.due d.ok m)), ?_, ?_, _, ?_,
      hahead⟩
    · rw [Conductor.takeTurn_driven ⟨h.unpaused, h.running⟩ hpart h.free hplay]
      show (Except.ok (), Stage.sweep id _) = _
      rw [Conductor.sweep_running hahead.running]
    · have hreturned : E.world ((u.returning id (s.sequence id).current ⟨part.step, p⟩).note
          (.drove id (.due d.ok m))) := E.noted _ _ (hworld _ _ hu)
      simp only [Stage.afterPlay, Stage.advancing]
      split
      · exact E.noted _ _ (hworld _ _ hreturned)
      · exact hreturned
    · simp only [Timing.span, OnFailure.stops] at hn ⊢
      by_cases hzero : m = 0
      · rw [if_pos hzero]
        simp at hn
        omega
      · rw [if_neg hzero]
        simp [Timing.span, OnFailure.stops] at hn ⊢
        omega

theorem completes (hworld : ∀ s f, E.world s → E.world (s.modify id f)) {n : Nat} :
    {rest : List Timing} → Timing.span .advance rest = n → {q : Sequence} →
    q.Ahead E id ds rest → E.Completes id n q := by
  induction n with
  | zero =>
    intro rest hrest q h
    have hnil : rest = [] := by
      by_contra hne
      have hpos : 0 < Timing.span .advance rest := Timing.span_pos h.positive hne
      omega
    subst hnil
    exact h.completes_now
  | succ n ih =>
    intro rest hrest q h
    constructor
    · have hlength := h.fixed.length_eq
      have hcursor := h.cursor
      have hne : rest.length ≠ 0 := by
        intro hzero
        rw [List.length_eq_zero_iff.mp hzero] at hrest
        exact absurd hrest (by simp [Timing.span])
      rw [Sequence.length_steps] at hlength
      omega
    · rintro dt s hdt hs rfl
      obtain ⟨t, ht, hworldt, rest', hrest', hahead⟩ := frame hworld hrest hdt hs h
      exact ⟨t, ht, hworldt, ih hrest' hahead⟩

end Sequence.Ahead

/-- A tree of composite steps over leaves whose timing is known settles, in each of its activations
and whatever came before, exactly in the frame and with the outcome that the recursion over the
tree computes. A sequence of such trees takes their frames one after the other, whether or not they
fail, and completes in the next one. -/
theorem charted_settles {E : Surroundings} {steps : List (Step Command)} {ds : List Timing}
    (h : ChartedList E steps ds) :
    List.Forall₂ (Step.Fixed E) steps ds ∧
      ∀ id q, (∀ s f, E.world s → E.world (s.modify id f)) → q.name = E.owner →
        q.steps = steps →
        (∀ part ∈ q.parts, part.step.Left (part.step.fresh E.resolve) part.progress) →
        q.running = true → q.paused = false → q.ticking = false → q.current = 0 →
        q.entered = false → E.Completes id (ds.map (·.ticks)).sum q := by
  refine ⟨h.fixed, fun id q hworld hname hsteps hleft hrun hpaused hfree hcurrent hentered => ?_⟩
  have hstart : q.Ahead E id ds ds := {
    name := hname
    running := hrun
    unpaused := hpaused
    free := hfree
    fixed := hsteps ▸ h.fixed
    left := hleft
    positive := allPositive_of_fixed h.fixed
    cursor := by rw [hcurrent, Nat.zero_add]
    next := fun _ => by rw [hcurrent, List.drop_zero]
    underway := fun he => absurd he (by rw [hentered]; simp) }
  exact hstart.completes hworld (Timing.span_advance ds)

/-- Two passes of a list that always fails, and a parallel step that one of its children saves. -/
theorem charted_settles_retried :
    let E : Surroundings := {
      resolve := fun label => ⟨label, 0⟩
      run := perform 1
      owner := "a"
      dts := fun _ => True
      world := fun _ => True
      noted := fun _ _ h => h }
    let steps : List (Step Command) := [
      .retry 2 [
        .group [.frames 2, .parallel .all [.frames 3, .frames 1]],
        .choose { test := .const false } [] [.bare [.failed], .frames 2],
        .bare [.failed]],
      .parallel .any [.bare [.failed], .frames 4]]
    let q := { Sequence.build E.resolve { name := "a", steps } with running := true }
    List.Forall₂ (Step.Fixed E) steps [⟨18, false⟩, ⟨4, true⟩] ∧ E.Completes 0 22 q := by
  intro E steps q
  have hframes : ∀ n : UInt32, Charted E (.frames n) ⟨max n.toNat 1, true⟩ :=
    fun n => .leaf (.frames E n)
  have hfails : Charted E (.bare [.failed]) ⟨1, false⟩ := .leaf (.bare E false)
  have hlater : ChartedList E [.bare [.failed], .frames 2] _ := .cons hfails (.cons (hframes 2) .nil)
  have hno : Question.Constant E { test := .const false } false :=
    ⟨fun s hs => ⟨s, rfl, hs, .refl s⟩, fun _ _ _ => rfl⟩
  have hchoice : Charted E (.choose { test := .const false } [] [.bare [.failed], .frames 2]) _ :=
    .choose hno hlater
  have hgroup : Charted E (.group [.frames 2, .parallel .all [.frames 3, .frames 1]]) _ :=
    .group (.cons (hframes 2)
      (.cons (.parallel .all (.cons (hframes 3) (.cons (hframes 1) .nil))) .nil))
  have hretry : Charted E steps[0] _ :=
    .retry 2 (.cons hgroup (.cons hchoice (.cons hfails .nil)))
  have hparallel : Charted E steps[1] _ := .parallel .any (.cons hfails (.cons (hframes 4) .nil))
  obtain ⟨hfixed, hcompletes⟩ := charted_settles (.cons hretry (.cons hparallel .nil))
  refine ⟨hfixed, hcompletes 0 q (fun _ _ _ => trivial) rfl rfl ?_ rfl rfl rfl rfl rfl⟩
  intro part hpart
  obtain ⟨s, -, rfl⟩ := List.mem_map.mp hpart
  exact .nothing

end Sequencer
