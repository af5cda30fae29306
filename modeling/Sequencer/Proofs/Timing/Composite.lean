import Mathlib.Data.List.Forall2
import Sequencer.Proofs.Timing.Past
import Sequencer.Proofs.Timing.Yields

/-!
# Composite steps in time

Given when the children of a composite step settle, this is when the step itself settles. What is
known between two frames is the list of what is still due, its head shortened by the frames that
the child under way already had.
-/

set_option autoImplicit false

namespace Sequencer

variable {E : Surroundings}

def Step.Goes (E : Surroundings) (s : Step Command) (cue : Cue) (ok : Bool) (n : Nat)
    (p : s.Progress) : Prop :=
  E.Lasts (fun dt => s.tick E.run dt cue) ok
    (fun p => E.Yields (· = p) (s.exit E.run cue) fun _ _ => True) n p

structure Step.Fixed (E : Surroundings) (s : Step Command) (d : Timing) : Prop where
  positive : 0 < d.ticks
  settles : ∀ cue : Cue, cue.owner = E.owner →
    E.Yields (s.Left (s.fresh E.resolve)) (s.enter E.run cue) fun _ => s.Goes E cue d.ok d.ticks

section

variable {π : Type} {c : Cue} {enter exit : Play π Unit} {tick : Float32 → Play π Status}
  {source : Source} {label : String} {index : Nat} {dt : Float32} {fresh ok : Bool} {n : Nat}
  {P : π → Prop}

theorem Cue.enter_yields {Q : π → Prop} (h : E.Yields P enter fun _ => Q) :
    E.Yields P (c.enter enter) fun _ => Q :=
  .bind (.note _) fun _ => .bind h fun _ => .note _

theorem Cue.exit_yields {Q : π → Prop} (h : E.Yields P exit fun _ => Q) :
    E.Yields P (c.exit exit) fun _ => Q :=
  .bind (.note _) fun _ => .bind h fun _ => .note _

theorem Cue.tick_yields {tick : Play π Status} {Q : Status → π → Prop} (h : E.Yields P tick Q) :
    E.Yields P (c.tick dt tick) Q :=
  .bind (.note _) fun _ => .bind h fun _ => .bind (.note _) fun _ => .pure _ fun _ hq => hq

/-- A step that is driven comes one frame nearer to its end, and is exited in its last one. -/
theorem Cue.drive_yields (hdt : E.dts dt)
    (henter : fresh = true → E.Yields P enter fun _ =>
      E.Lasts tick ok (fun p => E.Yields (· = p) exit fun _ _ => True) (n + 1))
    (hold : fresh = false → ∀ p, P p →
      E.Lasts tick ok (fun p => E.Yields (· = p) exit fun _ _ => True) (n + 1) p) :
    E.Yields P (c.drive source label index dt fresh enter (tick dt) exit) fun status p =>
      status = .due ok n ∧
        (0 < n → E.Lasts tick ok (fun p => E.Yields (· = p) exit fun _ _ => True) n p) := by
  have hopen : E.Yields P (c.openStep source label index fresh enter) fun _ =>
      E.Lasts tick ok (fun p => E.Yields (· = p) exit fun _ _ => True) (n + 1) := by
    apply Surroundings.Yields.ite
    · intro hf
      apply Surroundings.Yields.bind .settings
      intro settings
      apply Surroundings.Yields.ite
      · exact fun _ => .bind (.say _) fun _ => Cue.enter_yields (henter hf)
      · exact fun _ => Cue.enter_yields (henter hf)
    · exact fun hf => .pure () (hold (by simpa using hf))
  apply hopen.bind
  intro _
  have htick : E.Yields (E.Lasts tick ok (fun p => E.Yields (· = p) exit fun _ _ => True) (n + 1))
      (tick dt) fun status p => status = .due ok n ∧
        E.Lasts tick ok (fun p => E.Yields (· = p) exit fun _ _ => True) n p :=
    .know fun p hp => hp dt hdt
  apply (Cue.tick_yields htick).bind
  intro status
  have hclose : E.Yields (fun p => status = .due ok n ∧
      E.Lasts tick ok (fun p => E.Yields (· = p) exit fun _ _ => True) n p)
      (c.closeStep source label index status exit) fun _ p => status = .due ok n ∧
        (0 < n → E.Lasts tick ok (fun p => E.Yields (· = p) exit fun _ _ => True) n p) := by
    apply Surroundings.Yields.know
    rintro p ⟨hstatus, hp⟩
    apply Surroundings.Yields.ite
    · intro hterminal
      have hn : n = 0 := by
        rw [hstatus, Status.isTerminal_due] at hterminal
        exact of_decide_eq_true hterminal
      subst hn
      have hexit : E.Yields (· = p) exit fun _ _ => True := hp
      apply Surroundings.Yields.bind (Cue.exit_yields hexit)
      intro _
      apply Surroundings.Yields.bind .settings
      intro settings
      have hpost : ∀ q : π, True → status = .due ok 0 ∧
          (0 < 0 → E.Lasts tick ok (fun p => E.Yields (· = p) exit fun _ _ => True) 0 q) :=
        fun q _ => ⟨hstatus, fun h => absurd h (by omega)⟩
      apply Surroundings.Yields.ite
      · exact fun _ => (Surroundings.Yields.say _).mono (fun _ h => h) fun _ => hpost
      · exact fun _ => .pure () hpost
    · intro _
      apply Surroundings.Yields.pure
      rintro q rfl
      exact ⟨hstatus, fun _ => hp⟩
  apply hclose.bind
  exact fun _ => .pure status fun _ h => h

end

def goesNth (E : Surroundings) (cue : Cue) :
    (l : List (Step Command)) → Nat → Bool → Nat → Children l → Prop
  | [], _, _, _, _ => False
  | s :: _, 0, ok, n, p => s.Goes E cue ok n p.1
  | _ :: rest, i + 1, ok, n, p => goesNth E cue rest i ok n p.2

/-- Driving the `i`-th step of a list, given what its owner knows of it. -/
theorem driveNth_yields {cue : Cue} (hcue : cue.owner = E.owner) {dt : Float32} (hdt : E.dts dt)
    (index : Nat) {fresh ok : Bool} {n : Nat} : {l : List (Step Command)} → {ds : List Timing} →
    List.Forall₂ (Step.Fixed E) l ds → (i : Nat) → i < ds.length →
    (fresh = true → ds[i]? = some ⟨n + 1, ok⟩) →
    E.Yields (fun p => leftChildren l (freshChildren E.resolve l) p ∧
        (fresh = false → goesNth E cue l i ok (n + 1) p))
      (driveNth E.run dt l cue index i fresh)
      fun status p => status = .due ok n ∧ (0 < n → goesNth E cue l i ok n p)
  | _, _, .nil, _, hi, _ => absurd hi (Nat.not_lt_zero _)
  | s :: rest, d :: ds, .cons hs hrest, 0, _, hd => by
    apply Surroundings.Yields.first
    rintro a ⟨hleft, hold⟩
    apply Cue.drive_yields hdt
    · intro hf
      obtain rfl : d = ⟨n + 1, ok⟩ := by simpa using hd hf
      apply (hs.settles cue hcue).mono
      · rintro p rfl
        exact hleft.1
      · exact fun _ _ hp => hp
    · rintro hf p rfl
      exact hold hf
  | s :: rest, d :: ds, .cons hs hrest, i + 1, hi, hd => by
    apply Surroundings.Yields.second
    rintro a ⟨hleft, hold⟩
    apply (driveNth_yields hcue hdt index hrest i (by simpa using hi) (by simpa using hd)).mono
    · rintro p rfl
      exact ⟨hleft.2, hold⟩
    · exact fun _ _ hp => hp

structure Track.Ahead {π : Type} (L : π → Prop) (G : Nat → Bool → Nat → π → Prop)
    (ds rest : List Timing) (t : Track π) : Prop where
  left : L t.children
  positive : Timing.AllPositive rest
  cursor : t.cursor + rest.length = ds.length
  next : t.entered = false → rest = ds.drop t.cursor
  underway : t.entered = true → ∃ d tail, rest = d :: tail ∧ tail = ds.drop (t.cursor + 1) ∧
    G t.cursor d.ok d.ticks t.children

namespace Track

variable {π : Type} {L : π → Prop} {G : Nat → Bool → Nat → π → Prop} {ds rest : List Timing}

theorem Ahead.start (hds : Timing.AllPositive ds) {t : Track π} (h : L t.children) :
    Track.Ahead L G ds ds t.rewound where
  left := h
  positive := hds
  cursor := Nat.zero_add _
  next _ := rfl
  underway he := absurd he (by simp [rewound])

section

variable {d : Timing} {tail : List Timing} {t t' : Track π}

theorem Ahead.lt (h : Track.Ahead L G ds (d :: tail) t) : t.cursor < ds.length := by
  have hcursor := h.cursor
  simp only [List.length_cons] at hcursor
  omega

/-- Unless it is under way, the child that is due next is the one at the cursor. -/
theorem Ahead.at_cursor (h : Track.Ahead L G ds (d :: tail) t) (he : t.entered = false) :
    ds[t.cursor]? = some d := by
  have hdrop := congrArg List.head? (h.next he)
  rw [List.head?_drop] at hdrop
  exact hdrop.symm

theorem Ahead.tail_eq (h : Track.Ahead L G ds (d :: tail) t) : tail = ds.drop (t.cursor + 1) := by
  cases he : t.entered with
  | false =>
    have hdrop := congrArg List.tail (h.next he)
    rwa [List.tail_drop] at hdrop
  | true =>
    obtain ⟨d', tail', heq, htail, -⟩ := h.underway he
    obtain ⟨-, rfl⟩ := List.cons.inj heq
    exact htail

theorem Ahead.goes (h : Track.Ahead L G ds (d :: tail) t) (he : t.entered = true) :
    G t.cursor d.ok d.ticks t.children := by
  obtain ⟨d', tail', heq, -, hg⟩ := h.underway he
  obtain ⟨rfl, -⟩ := List.cons.inj heq
  exact hg

/-- The child under way has had a frame, and needs more of them. -/
theorem Ahead.goesOn {d' : Timing} (h : Track.Ahead L G ds (d :: tail) t) (hd : 0 < d'.ticks)
    (hl : L t'.children) (hc : t'.cursor = t.cursor) (he : t'.entered = true)
    (hg : G t.cursor d'.ok d'.ticks t'.children) : Track.Ahead L G ds (d' :: tail) t' where
  left := hl
  positive := List.forall_mem_cons.mpr ⟨hd, fun x hx => h.positive x (List.mem_cons_of_mem _ hx)⟩
  cursor := by
    rw [hc]
    exact h.cursor
  next hf := absurd (he.symm.trans hf) (by simp)
  underway _ := by
    rw [hc]
    exact ⟨d', tail, rfl, h.tail_eq, hg⟩

/-- The child under way has settled, and the cursor moves on. -/
theorem Ahead.passed (h : Track.Ahead L G ds (d :: tail) t) (hl : L t'.children)
    (hc : t'.cursor = t.cursor) :
    Track.Ahead L G ds tail { t' with entered := false, cursor := t'.cursor + 1 } where
  left := hl
  positive x hx := h.positive x (List.mem_cons_of_mem _ hx)
  cursor := by
    have hcursor := h.cursor
    simp only [List.length_cons] at hcursor
    show t'.cursor + 1 + tail.length = ds.length
    omega
  next _ := by
    show tail = ds.drop (t'.cursor + 1)
    rw [hc]
    exact h.tail_eq
  underway he := absurd he (by simp)

/-- Behind the child that is due next there are others, or it was the last one. -/
theorem Ahead.more (h : Track.Ahead L G ds (d :: tail) t) :
    t.cursor + 1 < ds.length ↔ tail.isEmpty = false := by
  rw [h.tail_eq, List.isEmpty_eq_false_iff, Ne, List.drop_eq_nil_iff]
  omega

end

/-- In a frame a list answers, and comes nearer to its end, as its dues say. -/
theorem tick_ahead {onFailure : OnFailure} {drive : Nat → Bool → Play π Status}
    (hdrive : ∀ i fresh ok n, i < ds.length → (fresh = true → ds[i]? = some ⟨n + 1, ok⟩) →
      E.Yields (fun p => L p ∧ (fresh = false → G i ok (n + 1) p)) (drive i fresh)
        fun status p => (status = .due ok n ∧ (0 < n → G i ok n p)) ∧ L p) :
    E.Yields (Track.Ahead L G ds rest) (Track.tick ds.length onFailure drive) fun status t =>
      status = (Timing.frame onFailure rest).1 ∧
        Track.Ahead L G ds (Timing.frame onFailure rest).2 t := by
  apply Surroundings.Yields.read
  intro t ht
  cases rest with
  | nil =>
    have hend : ¬ t.cursor < ds.length := by
      have hcursor := ht.cursor
      simp only [List.length_nil] at hcursor
      omega
    rw [if_neg hend]
    apply Surroundings.Yields.pure
    rintro t' rfl
    exact ⟨rfl, ht⟩
  | cons d tail =>
    rw [if_pos ht.lt]
    have hd : 0 < d.ticks := ht.positive d List.mem_cons_self
    obtain ⟨⟨m, ok⟩, rfl⟩ : ∃ e : Nat × Bool, d = ⟨e.1 + 1, e.2⟩ :=
      ⟨(d.ticks - 1, d.ok), by cases d; simp at hd ⊢; omega⟩
    apply Surroundings.Yields.bind (Q := fun _ t' => t' = { t with entered := true })
    · apply Surroundings.Yields.change
      rintro t' rfl
      rfl
    intro _
    apply Surroundings.Yields.bind (Q := fun status t' => status = .due ok m ∧
      L t'.children ∧ t'.cursor = t.cursor ∧ t'.entered = true ∧
        (0 < m → G t.cursor ok m t'.children))
    · apply Surroundings.Yields.part
      rintro t' rfl
      apply (hdrive t.cursor (!t.entered) ok m ht.lt (by simpa using ht.at_cursor)).mono
      · rintro p rfl
        exact ⟨ht.left, by simpa using ht.goes⟩
      · rintro status p ⟨⟨hstatus, hg⟩, hl⟩
        exact ⟨hstatus, hl, rfl, rfl, hg⟩
    intro status
    by_cases hm : 0 < m
    · -- the child goes on, and with it the list
      have hframe : Timing.frame onFailure (⟨m + 1, ok⟩ :: tail) = (.running, ⟨m, ok⟩ :: tail) :=
        Timing.frame_long (by show 1 < m + 1; omega)
      rw [hframe]
      apply Surroundings.Yields.ite
      · intro _
        apply Surroundings.Yields.pure
        rintro t' ⟨-, hl, hc, he, hg⟩
        exact ⟨rfl, ht.goesOn hm hl hc he (hg hm)⟩
      · intro hrun
        apply Surroundings.Yields.know
        rintro t' ⟨hstatus, -⟩
        rw [hstatus, Status.due_pos _ hm] at hrun
        exact absurd rfl hrun
    · -- the child settles: the list goes on behind it, or settles with it
      obtain rfl : m = 0 := by omega
      have hframe : Timing.frame onFailure (⟨1, ok⟩ :: tail) = _ :=
        Timing.frame_short (by show ¬ 1 < 1; omega)
      rw [hframe]
      apply Surroundings.Yields.know
      rintro t₁ ⟨hstatus, hl, hc, -, -⟩
      have hnot : ¬ status.isRunning = true := by
        rw [hstatus]
        cases ok <;> simp [Status.ofOutcome, Status.isRunning]
      rw [if_neg hnot]
      apply Surroundings.Yields.bind (Q := fun _ t' => Track.Ahead L G ds tail t')
      · apply Surroundings.Yields.change
        rintro t' rfl
        exact ht.passed hl hc
      intro _
      have hstops : (status.isFailure && decide (onFailure = .propagate)) =
          onFailure.stops ⟨1, ok⟩ := by
        rw [hstatus]
        cases ok <;> rfl
      rw [hstops]
      apply Surroundings.Yields.ite
      · intro hs
        exact .pure _ fun t' ht' => ⟨by rw [if_pos hs], ht'⟩
      · intro hs
        refine .pure _ fun t' ht' => ⟨?_, ht'⟩
        rw [if_neg hs]
        cases hempty : tail.isEmpty with
        | true => rw [if_neg (by rw [ht.more, hempty]; simp)]; rfl
        | false => rw [if_pos (ht.more.mpr hempty)]; rfl

structure Within (L : π → Prop) (G : Nat → Bool → Nat → π → Prop) (onFailure : OnFailure)
    (ds : List Timing) (ok : Bool) (n : Nat) (t : Track π) : Prop where
  left : L t.children
  ahead : 0 < n → ∃ rest, Track.Ahead L G ds rest t ∧ Timing.list onFailure rest = ⟨n, ok⟩

theorem Within.start (onFailure : OnFailure) (hds : Timing.AllPositive ds) {t : Track π}
    (h : L t.children) : Within L G onFailure ds (Timing.list onFailure ds).ok
      (Timing.list onFailure ds).ticks t.rewound where
  left := h
  ahead _ := ⟨ds, .start hds h, rfl⟩

theorem tick_within {onFailure : OnFailure} {drive : Nat → Bool → Play π Status} {ok : Bool}
    {n : Nat}
    (hdrive : ∀ i fresh ok n, i < ds.length → (fresh = true → ds[i]? = some ⟨n + 1, ok⟩) →
      E.Yields (fun p => L p ∧ (fresh = false → G i ok (n + 1) p)) (drive i fresh)
        fun status p => (status = .due ok n ∧ (0 < n → G i ok n p)) ∧ L p) :
    E.Yields (Within L G onFailure ds ok (n + 1)) (Track.tick ds.length onFailure drive)
      fun status t => status = .due ok n ∧ Within L G onFailure ds ok n t := by
  apply Surroundings.Yields.know
  intro t ht
  obtain ⟨rest, hahead, hrest⟩ := ht.ahead (Nat.succ_pos n)
  have hframe := Timing.frame_spec hahead.positive (n := n) (by rw [hrest])
  rw [hrest] at hframe
  apply Surroundings.Yields.mono (P := Track.Ahead L G ds rest) (tick_ahead hdrive)
  · rintro t' rfl
    exact hahead
  · rintro status t' ⟨hstatus, ht'⟩
    exact ⟨hstatus.trans hframe.1, ht'.left, fun hn => ⟨_, ht', hframe.2 hn⟩⟩

end Track

end Sequencer
