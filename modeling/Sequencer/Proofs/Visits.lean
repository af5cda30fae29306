import Sequencer.Proofs.Choice.Chosen
import Sequencer.Proofs.Entering

/-!
# What the calls of a step made of it

A step remembers what its calls left, each of which found what the one before had left. The
journal tells which calls these were and how the step answered. What is said here of a step and of
the steps below it depends only on the calls that they got themselves.
-/

set_option autoImplicit false

namespace Sequencer

open Site (Within Below Beneath)

/-- One call of a step: what the step remembered when the call came, how it answered, and what it
remembered then. A call that halts has no answer, though it may have changed something. -/
structure Visit (π : Type) where
  call : Call
  before : π
  answer : Except Halt (Option Status)
  after : π

def Visit.entries {π : Type} (σ : Site) (v : Visit π) : List Entry :=
  match v.answer with
  | .ok r => [.returned σ r, .called σ v.call]
  | .error _ => [.called σ v.call]

def Step.Responds (s : Step Command) (v : Visit s.Progress) : Prop :=
  ∃ run cue w t, s.answer run cue v.call (v.before, w) = (v.answer, v.after, t)

namespace Step.Responds

variable {s : Step Command} {p q : s.Progress} {r : Option Status}

theorem entered (h : s.Responds ⟨.enter, p, .ok r, q⟩) :
    r = none ∧ ∃ run cue w t, s.enter run cue (p, w) = (.ok (), q, t) := by
  obtain ⟨run, cue, w, t, h⟩ := h
  simp only [Step.answer, Play.bind_apply] at h
  rcases hs : s.enter run cue (p, w) with ⟨e | a, q', t'⟩ <;> rw [hs] at h
  · exact absurd (congrArg Prod.fst h) (by simp)
  · obtain ⟨rfl, rfl, -⟩ := h
    exact ⟨rfl, run, cue, w, _, hs⟩

theorem ticked {dt : Float32} (h : s.Responds ⟨.tick dt, p, .ok r, q⟩) :
    ∃ status, r = some status ∧ ∃ run cue w t, s.tick run dt cue (p, w) = (.ok status, q, t) := by
  obtain ⟨run, cue, w, t, h⟩ := h
  simp only [Step.answer, Play.bind_apply] at h
  rcases hs : s.tick run dt cue (p, w) with ⟨e | status, q', t'⟩ <;> rw [hs] at h
  · exact absurd (congrArg Prod.fst h) (by simp)
  · obtain ⟨rfl, rfl, -⟩ := h
    exact ⟨status, rfl, run, cue, w, _, hs⟩

theorem exited (h : s.Responds ⟨.exit, p, .ok r, q⟩) :
    r = none ∧ ∃ run cue w t, s.exit run cue (p, w) = (.ok (), q, t) := by
  obtain ⟨run, cue, w, t, h⟩ := h
  simp only [Step.answer, Play.bind_apply] at h
  rcases hs : s.exit run cue (p, w) with ⟨e | a, q', t'⟩ <;> rw [hs] at h
  · exact absurd (congrArg Prod.fst h) (by simp)
  · obtain ⟨rfl, rfl, -⟩ := h
    exact ⟨rfl, run, cue, w, _, hs⟩

end Step.Responds

inductive Step.Lived (s : Step Command) : List (Visit s.Progress) → s.Progress → Prop
  | built (resolve : String → EntityId) : s.Lived [] (s.fresh resolve)
  | visited {visits : List (Visit s.Progress)} (v : Visit s.Progress) :
      s.Lived visits v.before → s.Responds v → s.Lived (v :: visits) v.after

def Step.Recorded (s : Step Command) (σ : Site) (p : s.Progress) (j : List Entry) : Prop :=
  ∃ visits, s.Lived visits p ∧ callsAt σ j = visits.flatMap (Visit.entries σ)

mutual

def Step.RecordedBelow : (s : Step Command) → Site → s.Progress → List Entry → Prop
  | .choose _ yes no, σ => fun (p : ChoiceProgress (Children yes) (Children no)) j =>
    recordedChildren yes σ true 0 p.yes.children j ∧ recordedChildren no σ false 0 p.no.children j
  | .bounded _ _ steps, σ => fun (p : BoundedProgress (Children steps)) =>
    recordedChildren steps σ true 0 p.body.children
  | .retry _ steps, σ => fun (p : RetryProgress (Children steps)) =>
    recordedChildren steps σ true 0 p.body.children
  | .group steps, σ => fun (p : Track (Children steps)) =>
    recordedChildren steps σ true 0 p.children
  | .parallel _ steps, σ => recordedLanes steps σ 0
  | _, _ => fun _ _ => True

def recordedChildren : (l : List (Step Command)) → Site → Bool → Nat → Children l →
    List Entry → Prop
  | [], _, _, _ => fun _ _ => True
  | s :: rest, σ, b, n => fun p j =>
    (s.Recorded (σ.branch b n) p.1 j ∧ s.RecordedBelow (σ.branch b n) p.1 j) ∧
      recordedChildren rest σ b (n + 1) p.2 j

def recordedLanes : (l : List (Step Command)) → Site → Nat → Lanes l → List Entry → Prop
  | [], _, _ => fun _ _ => True
  | s :: rest, σ, n => fun p j =>
    (s.Recorded (σ.branch true n) p.1.child j ∧ s.RecordedBelow (σ.branch true n) p.1.child j) ∧
      recordedLanes rest σ (n + 1) p.2 j

end

def Step.RecordedWithin (s : Step Command) (σ : Site) (p : s.Progress) (j : List Entry) : Prop :=
  s.Recorded σ p j ∧ s.RecordedBelow σ p j

theorem Step.recordedBelow_leaf {s : Step Command} (h : s.isLeaf = true) (σ : Site)
    (p : s.Progress) (j : List Entry) : s.RecordedBelow σ p j := by
  cases s <;> trivial

theorem callsAt_append {σ : Site} {l : List Entry} (h : ∀ e ∈ l, e.site? ≠ some σ)
    (j : List Entry) : callsAt σ (l ++ j) = callsAt σ j := by
  induction l with
  | nil => rfl
  | cons e l ih =>
    rw [List.cons_append, callsAt_cons_ne (h e List.mem_cons_self)]
    exact ih fun e' he' => h e' (List.mem_cons_of_mem _ he')

theorem callsAt_of_silent {σ : Site} {l : List Entry} (h : ∀ e ∈ l, e.site? ≠ some σ) :
    callsAt σ l = [] := by
  have hl := callsAt_append h []
  rwa [List.append_nil] at hl

section

variable {j k : List Entry} {σ : Site}

theorem Step.Recorded.congr {s : Step Command} {p : s.Progress}
    (hs : callsAt σ k = callsAt σ j) (h : s.Recorded σ p j) : s.Recorded σ p k := by
  obtain ⟨visits, hlived, hcalls⟩ := h
  exact ⟨visits, hlived, hs.trans hcalls⟩

/-- A visit is over, in the midst of which only others were called. -/
theorem Step.Recorded.visited {s : Step Command} {v : Visit s.Progress}
    (h : s.Recorded σ v.before j) (hv : s.Responds v)
    (hk : callsAt σ k = v.entries σ ++ callsAt σ j) : s.Recorded σ v.after k := by
  obtain ⟨visits, hlived, hcalls⟩ := h
  exact ⟨v :: visits, .visited v hlived hv, by rw [hk, hcalls, List.flatMap_cons]⟩

mutual

/-- Only the calls of the steps below matter. -/
theorem Step.RecordedBelow.congr : (s : Step Command) → (σ : Site) → (p : s.Progress) →
    (∀ τ, σ.Below τ → callsAt τ k = callsAt τ j) → s.RecordedBelow σ p j → s.RecordedBelow σ p k
  | .choose _ yes no, σ, _, hs, h =>
    ⟨recordedChildren_congr yes σ true 0 _ (fun τ hτ => hs τ hτ.below) h.1,
      recordedChildren_congr no σ false 0 _ (fun τ hτ => hs τ hτ.below) h.2⟩
  | .bounded _ _ steps, σ, _, hs, h =>
    recordedChildren_congr steps σ true 0 _ (fun τ hτ => hs τ hτ.below) h
  | .retry _ steps, σ, _, hs, h =>
    recordedChildren_congr steps σ true 0 _ (fun τ hτ => hs τ hτ.below) h
  | .group steps, σ, _, hs, h =>
    recordedChildren_congr steps σ true 0 _ (fun τ hτ => hs τ hτ.below) h
  | .parallel _ steps, σ, p, hs, h =>
    recordedLanes_congr steps σ 0 p (fun τ hτ => hs τ hτ.below) h
  | .wait _, _, _, _, _ => trivial
  | .frames _, _, _, _, _ => trivial
  | .publish _, _, _, _, _ => trivial
  | .invoke _ _, _, _, _, _ => trivial
  | .component _ _ _, _, _, _, _ => trivial
  | .call _, _, _, _, _ => trivial
  | .startSequence _, _, _, _, _ => trivial
  | .stopSequence _, _, _, _, _ => trivial
  | .tween _, _, _, _, _ => trivial
  | .await _ _ _, _, _, _, _ => trivial
  | .barrier _ _, _, _, _, _ => trivial
  | .probe _ _, _, _, _, _ => trivial
  | .custom _ _ _ _, _, _, _, _ => trivial

theorem recordedChildren_congr : (l : List (Step Command)) → (σ : Site) → (b : Bool) →
    (n : Nat) → (p : Children l) → (∀ τ, σ.Beneath b n τ → callsAt τ k = callsAt τ j) →
    recordedChildren l σ b n p j → recordedChildren l σ b n p k
  | [], _, _, _, _, _, _ => trivial
  | s :: rest, σ, b, n, p, hs, h =>
    ⟨⟨h.1.1.congr (hs _ (.of_branch .here)),
        Step.RecordedBelow.congr s _ p.1 (fun τ hτ => hs τ (.of_branch hτ.within)) h.1.2⟩,
      recordedChildren_congr rest σ b (n + 1) p.2 (fun τ hτ => hs τ hτ.of_succ) h.2⟩

theorem recordedLanes_congr : (l : List (Step Command)) → (σ : Site) → (n : Nat) →
    (p : Lanes l) → (∀ τ, σ.Beneath true n τ → callsAt τ k = callsAt τ j) →
    recordedLanes l σ n p j → recordedLanes l σ n p k
  | [], _, _, _, _, _ => trivial
  | s :: rest, σ, n, p, hs, h =>
    ⟨⟨h.1.1.congr (hs _ (.of_branch .here)),
        Step.RecordedBelow.congr s _ p.1.child (fun τ hτ => hs τ (.of_branch hτ.within)) h.1.2⟩,
      recordedLanes_congr rest σ (n + 1) p.2 (fun τ hτ => hs τ hτ.of_succ) h.2⟩

end

theorem Step.RecordedWithin.congr {s : Step Command} {p : s.Progress}
    (hs : ∀ τ, σ.Within τ → callsAt τ k = callsAt τ j) (h : s.RecordedWithin σ p j) :
    s.RecordedWithin σ p k :=
  ⟨h.1.congr (hs σ .here), h.2.congr s σ p fun τ hτ => hs τ hτ.within⟩

theorem Step.recorded_fresh (resolve : String → EntityId) (s : Step Command)
    (hj : callsAt σ j = []) : s.Recorded σ (s.fresh resolve) j := ⟨[], .built resolve, hj⟩

mutual

theorem Step.recordedBelow_fresh (resolve : String → EntityId) : (s : Step Command) →
    (σ : Site) → (∀ τ, σ.Below τ → callsAt τ j = []) → s.RecordedBelow σ (s.fresh resolve) j
  | .choose _ yes no, σ, hj =>
    ⟨recordedChildren_fresh resolve yes σ true 0 fun τ hτ => hj τ hτ.below,
      recordedChildren_fresh resolve no σ false 0 fun τ hτ => hj τ hτ.below⟩
  | .bounded _ _ steps, σ, hj =>
    recordedChildren_fresh resolve steps σ true 0 fun τ hτ => hj τ hτ.below
  | .retry _ steps, σ, hj =>
    recordedChildren_fresh resolve steps σ true 0 fun τ hτ => hj τ hτ.below
  | .group steps, σ, hj =>
    recordedChildren_fresh resolve steps σ true 0 fun τ hτ => hj τ hτ.below
  | .parallel _ steps, σ, hj => recordedLanes_fresh resolve steps σ 0 fun τ hτ => hj τ hτ.below
  | .wait _, _, _ => trivial
  | .frames _, _, _ => trivial
  | .publish _, _, _ => trivial
  | .invoke _ _, _, _ => trivial
  | .component _ _ _, _, _ => trivial
  | .call _, _, _ => trivial
  | .startSequence _, _, _ => trivial
  | .stopSequence _, _, _ => trivial
  | .tween _, _, _ => trivial
  | .await _ _ _, _, _ => trivial
  | .barrier _ _, _, _ => trivial
  | .probe _ _, _, _ => trivial
  | .custom _ _ _ _, _, _ => trivial

theorem recordedChildren_fresh (resolve : String → EntityId) : (l : List (Step Command)) →
    (σ : Site) → (b : Bool) → (n : Nat) → (∀ τ, σ.Beneath b n τ → callsAt τ j = []) →
    recordedChildren l σ b n (freshChildren resolve l) j
  | [], _, _, _, _ => trivial
  | s :: rest, σ, b, n, hj =>
    ⟨⟨s.recorded_fresh resolve (hj _ (.of_branch .here)),
        s.recordedBelow_fresh resolve (σ.branch b n) fun τ hτ => hj τ (.of_branch hτ.within)⟩,
      recordedChildren_fresh resolve rest σ b (n + 1) fun τ hτ => hj τ hτ.of_succ⟩

theorem recordedLanes_fresh (resolve : String → EntityId) : (l : List (Step Command)) →
    (σ : Site) → (n : Nat) → (∀ τ, σ.Beneath true n τ → callsAt τ j = []) →
    recordedLanes l σ n (freshLanes resolve l) j
  | [], _, _, _ => trivial
  | s :: rest, σ, n, hj =>
    ⟨⟨s.recorded_fresh resolve (hj _ (.of_branch .here)),
        s.recordedBelow_fresh resolve (σ.branch true n) fun τ hτ => hj τ (.of_branch hτ.within)⟩,
      recordedLanes_fresh resolve rest σ (n + 1) fun τ hτ => hj τ hτ.of_succ⟩

end

/-- A step that was just built, and of which no one below it was ever called either. -/
theorem Step.recordedWithin_fresh (resolve : String → EntityId) (s : Step Command)
    (hj : ∀ τ, σ.Within τ → callsAt τ j = []) : s.RecordedWithin σ (s.fresh resolve) j :=
  ⟨s.recorded_fresh resolve (hj σ .here),
    s.recordedBelow_fresh resolve σ fun τ hτ => hj τ hτ.within⟩

end

end Sequencer
