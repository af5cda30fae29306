import Sequencer.Proofs.Course.Lifecycle
import Sequencer.Proofs.Timing.Composite

/-!
# Trees of steps in time

If the children of a composite step are fixed, so is the step.
-/

set_option autoImplicit false

namespace Sequencer

variable {E : Surroundings} {steps : List (Step Command)} {ds : List Timing}

theorem allPositive_of_fixed : {l : List (Step Command)} → {ds : List Timing} →
    List.Forall₂ (Step.Fixed E) l ds → Timing.AllPositive ds
  | _, _, .nil => fun _ hd => absurd hd List.not_mem_nil
  | _, _, .cons h hrest => by
    intro d hd
    rcases List.mem_cons.mp hd with rfl | hd
    · exact h.positive
    · exact allPositive_of_fixed hrest d hd

abbrev Past (E : Surroundings) (steps : List (Step Command)) : Children steps → Prop :=
  leftChildren steps (freshChildren E.resolve steps)

/-- The children of a list whose frames are known, each called at a cue of its own. -/
theorem driveNth_ahead (h : List.Forall₂ (Step.Fixed E) steps ds) {cues : Nat → Cue}
    (hcues : ∀ i, (cues i).owner = E.owner) {dt : Float32} (hdt : E.dts dt) (i : Nat)
    (fresh ok : Bool) (n : Nat) (hi : i < ds.length)
    (hd : fresh = true → ds[i]? = some ⟨n + 1, ok⟩) :
    E.Yields
      (fun p => Past E steps p ∧ (fresh = false → goesNth E (cues i) steps i ok (n + 1) p))
      (driveNth E.run dt steps (cues i) i i fresh)
      fun status p =>
        (status = .due ok n ∧ (0 < n → goesNth E (cues i) steps i ok n p)) ∧ Past E steps p := by
  apply ((driveNth_yields (hcues i) hdt i h i hi hd).keeping
    (driveNth_left E.run dt steps (cues i) i i fresh _)).mono
  · exact fun p hp => ⟨hp, hp.1⟩
  · exact fun status p hp => hp

/-- A frame of a list of children whose frames are known. -/
theorem tickSteps_within (h : List.Forall₂ (Step.Fixed E) steps ds) (cues : Nat → Cue)
    (hcues : ∀ i, (cues i).owner = E.owner) {dt : Float32} (hdt : E.dts dt)
    (onFailure : OnFailure) (ok : Bool) (n : Nat) :
    E.Yields
      (Track.Within (Past E steps) (fun i => goesNth E (cues i) steps i) onFailure ds ok (n + 1))
      (Track.tick steps.length onFailure fun i fresh =>
        driveNth E.run dt steps (cues i) i i fresh)
      fun status t => status = .due ok n ∧
        Track.Within (Past E steps) (fun i => goesNth E (cues i) steps i) onFailure ds ok n t := by
  rw [h.length_eq]
  exact Track.tick_within (driveNth_ahead h hcues hdt)

theorem exits_trivially {π : Type} (p : π) : E.Yields (· = p) (pure ()) fun _ _ => True :=
  .pure () fun _ _ => trivial

/-- A group settles with its first child that fails, or else with its last one. -/
theorem Step.Fixed.group (h : List.Forall₂ (Step.Fixed E) steps ds) :
    (Step.group steps).Fixed E (Timing.group ds) where
  positive := Timing.list_pos (allPositive_of_fixed h)
  settles cue hcue := by
    apply Surroundings.Yields.change (π := Track (Children steps))
    intro p hp
    apply Surroundings.Lasts.of_invariant
      (I := Track.Within (Past E steps) (fun i => goesNth E (cue.child i) steps i) .propagate ds
        (Timing.group ds).ok)
    · intro n t dt hdt ht
      rw [Step.tick]
      apply (tickSteps_within h cue.child (fun _ => hcue) hdt .propagate _ n).mono
      · rintro t' rfl
        exact ht
      · exact fun _ _ ht => ht
    · exact fun t _ => exits_trivially t
    · exact Track.Within.start .propagate (allPositive_of_fixed h) hp.group

structure Question.Constant (E : Surroundings) (q : Question Command) (answer : Bool) : Prop where
  code : ∀ s, E.world s → ∃ t, performAll E.run q.code s = (.ok (), t) ∧ E.world t ∧ HandsOff s t
  answers : ∀ s polls, E.world s → q.test.eval s E.owner polls = .ok answer

theorem Question.Constant.inquire {q : Question Command} {answer : Bool} (h : q.Constant E answer)
    {π : Type} {P : π → Prop} (asker : Asker) (polls : Nat) :
    E.Yields P (Play.onStage (inquire E.run asker E.owner polls q))
      fun a p => a = answer ∧ P p := by
  intro p s hp hs
  obtain ⟨t, ht, hworld, hhands⟩ := h.code s hs
  refine ⟨answer, p, t.note (.polled asker q.id answer), ?_, ⟨rfl, hp⟩, E.noted _ _ hworld,
    hhands.trans (.note _ _)⟩
  apply Play.onStage_apply
  simp only [inquire_apply, ht, ask_apply, h.answers t polls hworld]

theorem ChoiceProgress.enter_yields {π ρ : Type} {cue : Cue} (hcue : cue.owner = E.owner)
    {question : Question Command} {answer : Bool} (h : question.Constant E answer)
    {P Q : ChoiceProgress π ρ → Prop} (hP : ∀ p, P p → Q
      (if answer then { p with polls := p.polls + 1, second := false, yes := p.yes.rewound }
        else { p with polls := p.polls + 1, second := true, no := p.no.rewound })) :
    E.Yields P (ChoiceProgress.enter E.run cue question) fun _ => Q := by
  apply Surroundings.Yields.know
  intro p hp
  apply Surroundings.Yields.bind (Q := fun _ q => q = { p with polls := p.polls + 1 })
  · apply Surroundings.Yields.change
    rintro q rfl
    rfl
  intro _
  apply Surroundings.Yields.read
  rintro q rfl
  rw [hcue]
  apply (h.inquire (.step cue.site) _).bind
  intro a
  apply Surroundings.Yields.know
  rintro q ⟨rfl, rfl⟩
  have hq := hP p hp
  apply Surroundings.Yields.ite
  · intro ha
    rw [if_pos ha] at hq
    apply Surroundings.Yields.change
    rintro q rfl
    exact hq
  · intro ha
    rw [if_neg ha] at hq
    apply Surroundings.Yields.change
    rintro q rfl
    exact hq

/-- A choice runs the list that its question always chooses to its end. -/
theorem Step.Fixed.choose {question : Question Command} {answer : Bool}
    {yes no : List (Step Command)} (hq : question.Constant E answer)
    (h : List.Forall₂ (Step.Fixed E) (if answer then yes else no) ds) :
    (Step.choose question yes no).Fixed E (Timing.choice ds) where
  positive := Timing.list_pos (allPositive_of_fixed h)
  settles cue hcue := by
    cases answer with
    | true =>
      apply ChoiceProgress.enter_yields (π := Children yes) (ρ := Children no) hcue hq
      intro p hp
      apply Surroundings.Lasts.of_invariant
        (I := fun n (q : ChoiceProgress (Children yes) (Children no)) => q.second = false ∧
          Track.Within (Past E yes) (fun i => goesNth E (cue.child i) yes i) .advance ds
            (Timing.choice ds).ok n q.yes)
      · rintro n q dt hdt ⟨hsecond, hq⟩
        apply Surroundings.Yields.read
        rintro q rfl
        rw [if_neg (by simp [hsecond])]
        apply Surroundings.Yields.part
        rintro q rfl
        apply (tickSteps_within h cue.child (fun _ => hcue) hdt .advance _ n).mono
        · rintro t rfl
          exact hq
        · exact fun status t ht => ⟨ht.1, hsecond, ht.2⟩
      · exact fun q _ => exits_trivially q
      · exact ⟨rfl, Track.Within.start .advance (allPositive_of_fixed h) hp.choose.1⟩
    | false =>
      apply ChoiceProgress.enter_yields (π := Children yes) (ρ := Children no) hcue hq
      intro p hp
      apply Surroundings.Lasts.of_invariant
        (I := fun n (q : ChoiceProgress (Children yes) (Children no)) => q.second = true ∧
          Track.Within (Past E no) (fun i => goesNth E (cue.otherwise i) no i) .advance ds
            (Timing.choice ds).ok n q.no)
      · rintro n q dt hdt ⟨hsecond, hq⟩
        apply Surroundings.Yields.read
        rintro q rfl
        rw [if_pos hsecond]
        apply Surroundings.Yields.part
        rintro q rfl
        apply (tickSteps_within h cue.otherwise (fun _ => hcue) hdt .advance _ n).mono
        · rintro t rfl
          exact hq
        · exact fun status t ht => ⟨ht.1, hsecond, ht.2⟩
      · exact fun q _ => exits_trivially q
      · exact ⟨rfl, Track.Within.start .advance (allPositive_of_fixed h) hp.choose.2⟩

theorem RetryProgress.toNat_budget (attempts : UInt32) :
    (RetryProgress.budget attempts).toNat = max attempts.toNat 1 := by
  unfold budget
  split
  · next h => subst h; rfl
  · next h =>
    have : attempts.toNat ≠ 0 := fun e => h (UInt32.toNat_inj.1 e)
    omega

structure RetryProgress.Stands {π : Type} (L : π → Prop) (G : Nat → Bool → Nat → π → Prop)
    (attempts : Nat) (ds : List Timing) (n : Nat) (p : RetryProgress π) : Prop where
  left : L p.body.children
  pass : 0 < n → ∃ m, 0 < m ∧ Track.Within L G .propagate ds (Timing.group ds).ok m p.body ∧
    p.failures.toNat < attempts ∧
    n = m + if (Timing.group ds).ok then 0
      else (attempts - p.failures.toNat - 1) * (Timing.group ds).ticks

theorem RetryProgress.Stands.over {π : Type} {L : π → Prop} {G : Nat → Bool → Nat → π → Prop}
    {attempts : Nat} {p : RetryProgress π} (h : L p.body.children) :
    RetryProgress.Stands L G attempts ds 0 p := ⟨h, fun h => absurd h (Nat.lt_irrefl 0)⟩

/-- A pass of a list that fails is followed by the next one, as long as there are attempts, and those
that are left take the same time each. -/
theorem RetryProgress.Stands.again {π : Type} {L : π → Prop} {G : Nat → Bool → Nat → π → Prop}
    {attempts : Nat} {p : RetryProgress π} (hds : Timing.AllPositive ds)
    (hok : (Timing.group ds).ok = false) (hl : L p.body.children)
    (hmore : p.failures.toNat < attempts) :
    RetryProgress.Stands L G attempts ds ((attempts - p.failures.toNat) * (Timing.group ds).ticks)
      { p with body := p.body.rewound } where
  left := hl
  pass _ := by
    refine ⟨_, Timing.list_pos hds, .start .propagate hds hl, hmore, ?_⟩
    obtain ⟨k, hk⟩ : ∃ k, attempts - p.failures.toNat = k + 1 :=
      ⟨attempts - p.failures.toNat - 1, by omega⟩
    rw [if_neg (by simp [hok]), hk, Nat.add_sub_cancel, Nat.succ_mul, Nat.add_comm]
    rfl

theorem RetryProgress.tick_yields {π : Type} {L : π → Prop} {G : Nat → Bool → Nat → π → Prop}
    {owner : String} {attempts : UInt32} {body : Play (Track π) Status}
    (hds : Timing.AllPositive ds)
    (hbody : ∀ n, E.Yields (Track.Within L G .propagate ds (Timing.group ds).ok (n + 1)) body
      fun status t => status = .due (Timing.group ds).ok n ∧
        Track.Within L G .propagate ds (Timing.group ds).ok n t) (n : Nat) :
    E.Yields (RetryProgress.Stands L G (max attempts.toNat 1) ds (n + 1))
      (RetryProgress.tick owner attempts body) fun status p =>
        status = .due (Timing.group ds).ok n ∧
          RetryProgress.Stands L G (max attempts.toNat 1) ds n p := by
  apply Surroundings.Yields.know
  intro p hp
  obtain ⟨m, hm, hwithin, hfailures, hn⟩ := hp.pass (Nat.succ_pos n)
  obtain ⟨m, rfl⟩ : ∃ k, m = k + 1 := ⟨m - 1, by omega⟩
  apply Surroundings.Yields.bind (Q := fun status q => status = .due (Timing.group ds).ok m ∧
    q.failures = p.failures ∧ Track.Within L G .propagate ds (Timing.group ds).ok m q.body)
  · apply Surroundings.Yields.part
    rintro q rfl
    apply (hbody m).mono
    · rintro t rfl
      exact hwithin
    · exact fun status t ht => ⟨ht.1, rfl, ht.2⟩
  intro status
  apply Surroundings.Yields.know
  rintro q ⟨hstatus, hf, hq⟩
  by_cases hpos : 0 < m
  · -- the pass goes on
    rw [Status.due_pos _ hpos] at hstatus
    subst hstatus
    apply Surroundings.Yields.pure
    rintro q' rfl
    refine ⟨(Status.due_pos _ (by omega)).symm, hq.left, fun _ => ⟨m, hpos, hq, ?_, ?_⟩⟩
    · rw [hf]
      exact hfailures
    · rw [hf]
      omega
  · obtain rfl : m = 0 := by omega
    cases hok : (Timing.group ds).ok with
    | true =>
      -- the pass ends well, and with it the step
      rw [hok] at hstatus hn
      subst hstatus
      obtain rfl : n = 0 := by simpa using hn
      apply Surroundings.Yields.pure
      rintro q' rfl
      exact ⟨rfl, .over hq.left⟩
    | false =>
      -- the pass fails: it was the last one, or there is one pass less to come
      rw [hok] at hstatus hn
      subst hstatus
      have hcount : (p.failures + 1).toNat = p.failures.toNat + 1 := by
        have hlt := attempts.toNat_lt
        rw [UInt32.toNat_add, UInt32.toNat_one]
        omega
      have hleft : n = (max attempts.toNat 1 - (p.failures + 1).toNat) *
          (Timing.group ds).ticks := by
        rw [hcount, ← Nat.sub_sub]
        simp only [Bool.false_eq_true, if_false] at hn
        omega
      apply Surroundings.Yields.bind (Q := fun _ q' => q' = { q with failures := p.failures + 1 })
      · apply Surroundings.Yields.change
        rintro q' rfl
        rw [hf]
      intro _
      apply Surroundings.Yields.read
      rintro q' rfl
      have hlast : p.failures + 1 ≥ budget attempts ↔
          max attempts.toNat 1 ≤ (p.failures + 1).toNat := by
        rw [ge_iff_le, UInt32.le_iff_toNat_le, toNat_budget]
      apply Surroundings.Yields.ite
      · intro hge
        obtain rfl : n = 0 := by rw [hleft, Nat.sub_eq_zero_of_le (hlast.mp hge), Nat.zero_mul]
        apply Surroundings.Yields.bind (.say _)
        intro _
        apply Surroundings.Yields.pure
        rintro q' rfl
        exact ⟨rfl, .over hq.left⟩
      · intro hlt
        have hmore : (p.failures + 1).toNat < max attempts.toNat 1 :=
          Nat.lt_of_not_le (mt hlast.mpr hlt)
        have hpos : 0 < n := by
          rw [hleft]
          exact Nat.mul_pos (Nat.sub_pos_of_lt hmore) (Timing.list_pos hds)
        apply Surroundings.Yields.bind (Q := fun _ q' => q' =
          { q with failures := p.failures + 1, body := q.body.rewound })
        · apply Surroundings.Yields.change
          rintro q' rfl
          rfl
        intro _
        apply Surroundings.Yields.pure
        rintro q' rfl
        refine ⟨(Status.due_pos _ hpos).symm, ?_⟩
        rw [hleft]
        exact .again (p := { q with failures := p.failures + 1 }) hds hok hq.left hmore

/-- A retried list takes one pass if it succeeds, and all the passes it has if it fails. -/
theorem Step.Fixed.retry (attempts : UInt32) (h : List.Forall₂ (Step.Fixed E) steps ds) :
    (Step.retry attempts steps).Fixed E (Timing.retry attempts.toNat ds) where
  positive := Timing.retry_pos _ (allPositive_of_fixed h)
  settles cue hcue := by
    have hds := allPositive_of_fixed h
    have hok : (Timing.retry attempts.toNat ds).ok = (Timing.group ds).ok := by
      unfold Timing.retry
      split
      · rfl
      · next hf => simpa using hf
    rw [hok]
    apply Surroundings.Yields.change
      (f := fun p : RetryProgress (Children steps) => { p with failures := 0, body := p.body.rewound })
    intro p hp
    apply Surroundings.Lasts.of_invariant
      (I := RetryProgress.Stands (Past E steps) (fun i => goesNth E (cue.child i) steps i)
        (max attempts.toNat 1) ds)
    · intro n q dt hdt hq
      apply (RetryProgress.tick_yields hds
        (tickSteps_within h cue.child (fun _ => hcue) hdt .propagate _) n).mono
      · rintro q' rfl
        exact hq
      · exact fun _ _ hq => hq
    · exact fun q _ => exits_trivially q
    · refine ⟨hp.retry, fun _ => ⟨(Timing.group ds).ticks, Timing.list_pos hds, ?_, ?_, ?_⟩⟩
      · exact Track.Within.start .propagate hds hp.retry
      · show 0 < max attempts.toNat 1
        omega
      · show (Timing.retry attempts.toNat ds).ticks = _ + if (Timing.group ds).ok then 0 else
          (max attempts.toNat 1 - 0 - 1) * (Timing.group ds).ticks
        unfold Timing.retry
        split
        · rfl
        · obtain ⟨k, hk⟩ : ∃ k, max attempts.toNat 1 = k + 1 :=
            ⟨max attempts.toNat 1 - 1, by omega⟩
          rw [hk, Nat.succ_mul, Nat.add_comm]
          rfl

def lanesAt (E : Surroundings) (cue : Cue) (k : Nat) :
    (l : List (Step Command)) → List Timing → Nat → Lanes l → Prop
  | s :: rest, d :: ds, index, a =>
    (if d.ticks ≤ k then a.1.settled.isSome = true
      else a.1.settled = none ∧ s.Goes E (cue.child index) d.ok (d.ticks - k) a.1.child) ∧
      lanesAt E cue k rest ds (index + 1) a.2
  | _, _, _, _ => True

theorem enterLanes_yields {cue : Cue} (hcue : cue.owner = E.owner) :
    {l : List (Step Command)} → {ds : List Timing} → List.Forall₂ (Step.Fixed E) l ds →
    (index : Nat) → E.Yields (leftLanes l (freshLanes E.resolve l)) (enterLanes E.run l cue index)
      fun _ a => lanesAt E cue 0 l ds index a
  | _, _, .nil, _ => .pure () fun _ _ => trivial
  | s :: rest, d :: ds, .cons hs hrest, index => by
    have hd : ¬ d.ticks ≤ 0 := by
      have := hs.positive
      omega
    apply Surroundings.Yields.bind (Q := fun _ (a : Lane s.Progress × Lanes rest) =>
      (a.1.settled = none ∧ s.Goes E (cue.child index) d.ok d.ticks a.1.child) ∧
        leftLanes rest (freshLanes E.resolve rest) a.2)
    · apply Surroundings.Yields.first
      rintro a ⟨hleft, hothers⟩
      apply Surroundings.Yields.bind (Q := fun _ (b : Lane s.Progress) =>
        b.settled = none ∧ b.child = a.1.child)
      · apply Surroundings.Yields.change
        rintro b rfl
        exact ⟨rfl, rfl⟩
      intro _
      apply Surroundings.Yields.part
      rintro b ⟨hsettled, hchild⟩
      apply (Cue.enter_yields (hs.settles (cue.child index) hcue)).mono
      · rintro p rfl
        rw [hchild]
        exact hleft
      · exact fun _ p hp => ⟨⟨hsettled, hp⟩, hothers⟩
    · intro _
      apply Surroundings.Yields.second
      rintro a ⟨hlane, hothers⟩
      apply (enterLanes_yields hcue hrest (index + 1)).mono
      · rintro b rfl
        exact hothers
      · intro _ b hb
        refine ⟨?_, hb⟩
        rw [if_neg hd]
        exact hlane

def Timing.settling (k : Nat) (ds : List Timing) : List (Option Status) :=
  ds.map fun d => if d.ticks = k + 1 then some (.ofOutcome d.ok) else none

theorem Lane.tick_yields {s : Step Command} {cue : Cue} {dt : Float32} (hdt : E.dts dt) {d : Timing}
    {k : Nat} : E.Yields
      (fun a : Lane s.Progress => if d.ticks ≤ k then a.settled.isSome = true
        else a.settled = none ∧ s.Goes E cue d.ok (d.ticks - k) a.child)
      (Lane.tick cue dt (s.tick E.run dt cue) (s.exit E.run cue)) fun status a =>
        status = (if d.ticks = k + 1 then some (.ofOutcome d.ok) else none) ∧
          if d.ticks ≤ k + 1 then a.settled.isSome = true
          else a.settled = none ∧ s.Goes E cue d.ok (d.ticks - (k + 1)) a.child := by
  apply Surroundings.Yields.read
  intro a ha
  by_cases hdone : d.ticks ≤ k
  · rw [if_pos hdone] at ha
    rw [if_pos ha]
    apply Surroundings.Yields.pure
    rintro b rfl
    rw [if_neg (by omega), if_pos (by omega)]
    exact ⟨rfl, ha⟩
  rw [if_neg hdone] at ha
  obtain ⟨hnone, hgoes⟩ := ha
  rw [if_neg (by simp [hnone])]
  obtain ⟨n, hn⟩ : ∃ n, d.ticks - k = n + 1 := ⟨d.ticks - k - 1, by omega⟩
  rw [hn] at hgoes
  apply Surroundings.Yields.bind (Q := fun status b => status = .due d.ok n ∧
    b.settled = none ∧ s.Goes E cue d.ok n b.child)
  · apply Surroundings.Yields.part
    rintro b rfl
    apply (Cue.tick_yields (hgoes dt hdt)).mono
    · exact fun _ hp => hp
    · exact fun status p hp => ⟨hp.1, hnone, hp.2⟩
  intro status
  by_cases hpos : 0 < n
  · apply Surroundings.Yields.ite
    · intro _
      apply Surroundings.Yields.pure
      rintro b ⟨-, hsettled, hb⟩
      rw [if_neg (by omega), if_neg (by omega), show d.ticks - (k + 1) = n by omega]
      exact ⟨rfl, hsettled, hb⟩
    · intro hrun
      apply Surroundings.Yields.know
      rintro b ⟨hstatus, -⟩
      rw [hstatus, Status.due_pos _ hpos] at hrun
      exact absurd rfl hrun
  · obtain rfl : n = 0 := by omega
    apply Surroundings.Yields.know
    rintro b ⟨hstatus, hsettled, hb⟩
    have hnot : ¬ status.isRunning = true := by
      rw [hstatus]
      cases d.ok <;> simp [Status.ofOutcome, Status.isRunning]
    rw [if_neg hnot]
    apply Surroundings.Yields.bind (Q := fun _ _ => True)
    · apply Surroundings.Yields.part
      rintro b' rfl
      have hexit : E.Yields (· = b'.child) (s.exit E.run cue) fun _ _ => True := hb
      exact (Cue.exit_yields hexit).mono (fun _ h => h) fun _ _ _ => trivial
    intro _
    apply Surroundings.Yields.bind (Q := fun _ b' => b'.settled.isSome = true)
    · apply Surroundings.Yields.change
      exact fun _ _ => rfl
    intro _
    apply Surroundings.Yields.pure
    intro b' hb'
    rw [if_pos (by omega), if_pos (by omega), hstatus]
    exact ⟨rfl, hb'⟩

theorem tickLanes_yields {cue : Cue} {dt : Float32} (hdt : E.dts dt) (k : Nat) :
    {l : List (Step Command)} → {ds : List Timing} → List.Forall₂ (Step.Fixed E) l ds →
    (index : Nat) → E.Yields (lanesAt E cue k l ds index) (tickLanes E.run dt l cue index)
      fun settled a => settled = Timing.settling k ds ∧ lanesAt E cue (k + 1) l ds index a
  | _, _, .nil, _ => .pure _ fun _ _ => ⟨rfl, trivial⟩
  | s :: rest, d :: ds, .cons hs hrest, index => by
    apply Surroundings.Yields.bind (Q := fun status (a : Lane s.Progress × Lanes rest) =>
      (status = (if d.ticks = k + 1 then some (.ofOutcome d.ok) else none) ∧
        if d.ticks ≤ k + 1 then a.1.settled.isSome = true
        else a.1.settled = none ∧ s.Goes E (cue.child index) d.ok (d.ticks - (k + 1)) a.1.child) ∧
        lanesAt E cue k rest ds (index + 1) a.2)
    · apply Surroundings.Yields.first
      rintro a ⟨hlane, hothers⟩
      apply (Lane.tick_yields hdt).mono
      · rintro b rfl
        exact hlane
      · exact fun status b hb => ⟨hb, hothers⟩
    · intro status
      apply Surroundings.Yields.bind (Q := fun later (a : Lane s.Progress × Lanes rest) =>
        status :: later = Timing.settling k (d :: ds) ∧
          lanesAt E cue (k + 1) (s :: rest) (d :: ds) index a)
      · apply Surroundings.Yields.second
        rintro a ⟨⟨hstatus, hlane⟩, hothers⟩
        apply (tickLanes_yields hdt k hrest (index + 1)).mono
        · rintro b rfl
          exact hothers
        · rintro later b ⟨hlater, hb⟩
          refine ⟨?_, hlane, hb⟩
          rw [hstatus, hlater]
          rfl
      · exact fun later => .pure _ fun a ha => ha

theorem pendingLanes_at {cue : Cue} (k : Nat) : {l : List (Step Command)} → {ds : List Timing} →
    List.Forall₂ (Step.Fixed E) l ds → (index : Nat) → (a : Lanes l) →
    lanesAt E cue k l ds index a → pendingLanes l a = ds.countP (k < ·.ticks)
  | _, _, .nil, _, _, _ => rfl
  | s :: rest, d :: ds, .cons hs hrest, index, a, h => by
    obtain ⟨hlane, hothers⟩ := h
    have hcount := pendingLanes_at k hrest (index + 1) a.2 hothers
    have hpending : pendingLanes (s :: rest) a =
        (if a.1.settled.isNone then 1 else 0) + pendingLanes rest a.2 := rfl
    rw [hpending, List.countP_cons, hcount]
    by_cases hd : d.ticks ≤ k
    · rw [if_pos hd] at hlane
      have hsome : a.1.settled.isNone = false := by simpa using hlane
      simp [hsome, show ¬ k < d.ticks by omega]
    · rw [if_neg hd] at hlane
      simp [hlane.1, show k < d.ticks by omega]
      omega

/-- The two rules are one: a decisive child settles the step at once, and otherwise the step ends
the other way as soon as no child is left. -/
theorem Quorum.verdict_eq (mode : Quorum) (settled : List Status) (pending : Nat) :
    mode.verdict settled pending =
      if .ofOutcome mode.decisive ∈ settled then some (.ofOutcome mode.decisive)
      else if pending = 0 then some (.ofOutcome !mode.decisive) else none := by
  cases mode with
  | all =>
    have hany : settled.any (·.isFailure) = true ↔ Status.failed ∈ settled := by
      rw [List.any_eq_true]
      constructor
      · rintro ⟨status, hmem, hs⟩
        cases status <;> first | exact hmem | simp [Status.isFailure] at hs
      · exact fun hmem => ⟨_, hmem, rfl⟩
    simp only [verdict, hany]
    rfl
  | any =>
    have hany : settled.any (·.isSuccess) = true ↔ Status.succeeded ∈ settled := by
      rw [List.any_eq_true]
      constructor
      · rintro ⟨status, hmem, hs⟩
        cases status <;> first | exact hmem | simp [Status.isSuccess] at hs
      · exact fun hmem => ⟨_, hmem, rfl⟩
    simp only [verdict, hany]
    rfl

theorem Timing.mem_settling {k : Nat} {ok : Bool} :
    Status.ofOutcome ok ∈ (Timing.settling k ds).reduceOption ↔
      ∃ d ∈ ds, d.ok = ok ∧ d.ticks = k + 1 := by
  rw [List.reduceOption_mem_iff, Timing.settling, List.mem_map]
  constructor
  · rintro ⟨d, hd, h⟩
    by_cases hk : d.ticks = k + 1
    · rw [if_pos hk] at h
      refine ⟨d, hd, ?_, hk⟩
      revert h
      cases d.ok <;> cases ok <;> simp [Status.ofOutcome]
    · rw [if_neg hk] at h
      exact absurd h (by simp)
  · rintro ⟨d, hd, rfl, hk⟩
    exact ⟨d, hd, if_pos hk⟩

/-- As long as it has not settled, a parallel step answers every frame as its dues say. -/
theorem Timing.parallel_verdict (mode : Quorum) {k n : Nat}
    (hk : (Timing.parallel mode ds).ticks = k + 1 + n) :
    (mode.verdict (Timing.settling k ds).reduceOption (ds.countP (k + 1 < ·.ticks))).getD .running =
      .due (Timing.parallel mode ds).ok n := by
  rw [Quorum.verdict_eq]
  have hpending : ds.countP (k + 1 < ·.ticks) = 0 ↔ ∀ d ∈ ds, d.ticks ≤ k + 1 := by
    simp [List.countP_eq_zero]
  cases hearliest : Timing.earliest mode.decisive ds with
  | some m =>
    obtain ⟨⟨d, hd, hdok, hdm⟩, hmin⟩ := Timing.earliest_eq_some hearliest
    have hparallel : Timing.parallel mode ds = ⟨m, mode.decisive⟩ := by
      simp only [Timing.parallel, hearliest]
    rw [hparallel] at hk ⊢
    simp only at hk
    by_cases hn : n = 0
    · subst hn
      rw [if_pos (Timing.mem_settling.mpr ⟨d, hd, hdok, by omega⟩)]
      rfl
    · have hnot : ¬ Status.ofOutcome mode.decisive ∈ (Timing.settling k ds).reduceOption := by
        intro hmem
        obtain ⟨d', hd', hok', hk'⟩ := Timing.mem_settling.mp hmem
        have := hmin d' hd' hok'
        omega
      have hmore : ¬ ds.countP (k + 1 < ·.ticks) = 0 := by
        intro hzero
        have := hpending.mp hzero d hd
        omega
      rw [if_neg hnot, if_neg hmore, Status.due_pos _ (by omega)]
      rfl
  | none =>
    have hall := Timing.earliest_eq_none hearliest
    have hparallel : Timing.parallel mode ds = ⟨Timing.latest ds, !mode.decisive⟩ := by
      simp only [Timing.parallel, hearliest]
    rw [hparallel] at hk ⊢
    simp only at hk
    have hnot : ¬ Status.ofOutcome mode.decisive ∈ (Timing.settling k ds).reduceOption := by
      intro hmem
      obtain ⟨d, hd, hok, -⟩ := Timing.mem_settling.mp hmem
      rw [hall d hd] at hok
      revert hok
      cases mode.decisive <;> simp
    rw [if_neg hnot]
    by_cases hn : n = 0
    · subst hn
      have hzero : ds.countP (k + 1 < ·.ticks) = 0 := by
        rw [hpending]
        intro d hd
        have := Timing.le_latest hd
        omega
      rw [if_pos hzero]
      rfl
    · have hmore : ¬ ds.countP (k + 1 < ·.ticks) = 0 := by
        intro hzero
        rcases Timing.latest_cases ds with h | ⟨d, hd, h⟩
        · omega
        · have := hpending.mp hzero d hd
          omega
      rw [if_neg hmore, Status.due_pos _ (by omega)]
      rfl

theorem Quorum.conclude_yields {π : Type} (mode : Quorum) (owner : String) (settled : List Status)
    (pending : Nat) {P : π → Prop} : E.Yields P (mode.conclude owner settled pending) fun status p =>
      status = (mode.verdict settled pending).getD .running ∧ P p := by
  unfold Quorum.conclude
  split
  · next status hv =>
    have hpost : ∀ p, P p → status = (mode.verdict settled pending).getD .running ∧ P p := by
      intro p hp
      rw [hv]
      exact ⟨rfl, hp⟩
    apply Surroundings.Yields.ite
    · exact fun _ => .bind (.say _) fun _ => .pure status hpost
    · exact fun _ => .pure status hpost
  · next hv =>
    apply Surroundings.Yields.pure
    intro p hp
    rw [hv]
    exact ⟨rfl, hp⟩

/-- A parallel step settles with the first child that decides it, or else with its last one. -/
theorem Step.Fixed.parallel (mode : Quorum) (h : List.Forall₂ (Step.Fixed E) steps ds) :
    (Step.parallel mode steps).Fixed E (Timing.parallel mode ds) where
  positive := Timing.parallel_pos mode (allPositive_of_fixed h)
  settles cue hcue := by
    have henter : E.Yields
        ((Step.parallel mode steps).Left ((Step.parallel mode steps).fresh E.resolve))
        (enterLanes E.run steps cue 0) fun _ a => lanesAt E cue 0 steps ds 0 a :=
      (enterLanes_yields hcue h 0).mono (fun _ hp => Step.Left.parallel hp) fun _ _ ha => ha
    apply henter.mono (fun _ hp => hp)
    intro _ a ha
    apply Surroundings.Lasts.of_invariant (I := fun n (a : Lanes steps) =>
      ∃ k, (Timing.parallel mode ds).ticks = k + n ∧ lanesAt E cue k steps ds 0 a)
    · rintro n a dt hdt ⟨k, hk, ha⟩
      apply Surroundings.Yields.bind (Q := fun settled a => settled = Timing.settling k ds ∧
        lanesAt E cue (k + 1) steps ds 0 a)
      · apply (tickLanes_yields hdt k h 0).mono
        · rintro b rfl
          exact ha
        · exact fun _ _ hb => hb
      intro settled
      apply Surroundings.Yields.read
      rintro b ⟨rfl, hb⟩
      rw [pendingLanes_at (k + 1) h 0 b hb]
      apply (mode.conclude_yields cue.owner _ _).mono (fun _ hp => hp)
      rintro status c ⟨rfl, rfl⟩
      exact ⟨Timing.parallel_verdict mode (by omega), k + 1, by omega, hb⟩
    · exact fun a _ => exits_trivially a
    · exact ⟨0, (Nat.zero_add _).symm, ha⟩

end Sequencer
