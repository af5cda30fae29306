import Sequencer.Play.Composite

/-!
# Sequences that are akin

Whether a barrier has warned of a long wait is written down for the sake of the log alone. Progress
that differs in that at most is akin, and so are sequences of the same state whose steps have made
progress that is akin. Whatever a sequence shows of itself it shows alike then, and the operations
on a sequence keep it so.
-/

set_option autoImplicit false

namespace Sequencer

section

variable {π ρ : Type}

structure Track.Akin (R : π → π → Prop) (t u : Track π) : Prop where
  cursor : u.cursor = t.cursor
  entered : u.entered = t.entered
  children : R t.children u.children

structure ChoiceProgress.Akin (R : π → π → Prop) (Q : ρ → ρ → Prop)
    (p q : ChoiceProgress π ρ) : Prop where
  polls : q.polls = p.polls
  second : q.second = p.second
  yes : p.yes.Akin R q.yes
  no : p.no.Akin Q q.no

structure BoundedProgress.Akin (R : π → π → Prop) (p q : BoundedProgress π) : Prop where
  elapsed : q.elapsed = p.elapsed
  body : p.body.Akin R q.body

structure RetryProgress.Akin (R : π → π → Prop) (p q : RetryProgress π) : Prop where
  failures : q.failures = p.failures
  body : p.body.Akin R q.body

structure Lane.Akin (R : π → π → Prop) (l m : Lane π) : Prop where
  settled : m.settled = l.settled
  child : R l.child m.child

structure BarrierProgress.Akin (p q : BarrierProgress) : Prop where
  released : q.released = p.released
  waited : q.waited = p.waited

theorem Track.Akin.rewound {R : π → π → Prop} {t u : Track π} (h : t.Akin R u) :
    t.rewound.Akin R u.rewound := ⟨rfl, rfl, h.children⟩

end

variable {κ : Type}

mutual

def Step.Akin : (x : Step κ) → x.Progress → x.Progress → Prop
  | .wait _ => fun (p q : Float32) => p = q
  | .frames _ => fun (p q : UInt32) => p = q
  | .publish _ => fun _ _ => True
  | .invoke _ _ => fun _ _ => True
  | .component _ _ _ => fun (p q : EntityId) => p = q
  | .call _ => fun _ _ => True
  | .startSequence _ => fun _ _ => True
  | .stopSequence _ => fun _ _ => True
  | .tween _ => fun (p q : TweenProgress) => p = q
  | .choose _ yes no => ChoiceProgress.Akin (childrenAkin yes) (childrenAkin no)
  | .await _ _ _ => fun (p q : AwaitProgress) => p = q
  | .bounded _ _ steps => BoundedProgress.Akin (childrenAkin steps)
  | .retry _ steps => RetryProgress.Akin (childrenAkin steps)
  | .group steps => Track.Akin (childrenAkin steps)
  | .parallel _ steps => lanesAkin steps
  | .barrier _ _ => BarrierProgress.Akin
  | .probe _ _ => fun (p q : Nat) => p = q
  | .custom _ _ _ _ => fun (p q : Nat) => p = q

def childrenAkin : (l : List (Step κ)) → Children l → Children l → Prop
  | [], _, _ => True
  | x :: rest, p, q => x.Akin p.1 q.1 ∧ childrenAkin rest p.2 q.2

def lanesAkin : (l : List (Step κ)) → Lanes l → Lanes l → Prop
  | [], _, _ => True
  | x :: rest, p, q => p.1.Akin x.Akin q.1 ∧ lanesAkin rest p.2 q.2

end

mutual

theorem Step.Akin.refl : (x : Step κ) → (p : x.Progress) → x.Akin p p
  | .wait _, _ => rfl
  | .frames _, _ => rfl
  | .publish _, _ => trivial
  | .invoke _ _, _ => trivial
  | .component _ _ _, _ => rfl
  | .call _, _ => trivial
  | .startSequence _, _ => trivial
  | .stopSequence _, _ => trivial
  | .tween _, _ => rfl
  | .choose _ yes no, _ =>
    ⟨rfl, rfl, ⟨rfl, rfl, childrenAkin_refl yes _⟩, ⟨rfl, rfl, childrenAkin_refl no _⟩⟩
  | .await _ _ _, _ => rfl
  | .bounded _ _ steps, _ => ⟨rfl, rfl, rfl, childrenAkin_refl steps _⟩
  | .retry _ steps, _ => ⟨rfl, rfl, rfl, childrenAkin_refl steps _⟩
  | .group steps, _ => ⟨rfl, rfl, childrenAkin_refl steps _⟩
  | .parallel _ steps, p => lanesAkin_refl steps p
  | .barrier _ _, _ => ⟨rfl, rfl⟩
  | .probe _ _, _ => rfl
  | .custom _ _ _ _, _ => rfl

theorem childrenAkin_refl : (l : List (Step κ)) → (p : Children l) → childrenAkin l p p
  | [], _ => trivial
  | x :: rest, p => ⟨.refl x p.1, childrenAkin_refl rest p.2⟩

theorem lanesAkin_refl : (l : List (Step κ)) → (p : Lanes l) → lanesAkin l p p
  | [], _ => trivial
  | x :: rest, p => ⟨⟨rfl, .refl x p.1.child⟩, lanesAkin_refl rest p.2⟩

end

theorem pendingLanes_akin : (l : List (Step κ)) → (p q : Lanes l) → lanesAkin l p q →
    pendingLanes l q = pendingLanes l p
  | [], _, _, _ => rfl
  | x :: rest, (m, ms), (n, ns), h => by
    have hrest := pendingLanes_akin rest ms ns h.2
    have hsettled : n.settled = m.settled := h.1.settled
    simp only [pendingLanes, hrest, hsettled]

inductive Part.Akin : Part → Part → Prop
  | intro {x : Step Command} {p q : x.Progress} : x.Akin p q → Part.Akin ⟨x, p⟩ ⟨x, q⟩

namespace Part.Akin

theorem refl (p : Part) : p.Akin p := .intro (.refl p.step p.progress)

theorem step_eq {p q : Part} (h : p.Akin q) : q.step = p.step := by
  cases h
  rfl

end Part.Akin

structure Sequence.Akin (p q : Sequence) : Prop where
  state : q = { p with parts := q.parts }
  parts : ∀ n : Nat, Option.Rel Part.Akin p.parts[n]? q.parts[n]?

namespace Sequence.Akin

variable {p q : Sequence}

theorem refl (p : Sequence) : p.Akin p := by
  refine ⟨rfl, fun n => ?_⟩
  cases p.parts[n]? with
  | none => exact .none
  | some part => exact .some (.refl part)

theorem name (h : p.Akin q) : q.name = p.name := by rw [h.state]

theorem guard (h : p.Akin q) : q.guard = p.guard := by rw [h.state]

theorem validators (h : p.Akin q) : q.validators = p.validators := by rw [h.state]

theorem current (h : p.Akin q) : q.current = p.current := by rw [h.state]

theorem entered (h : p.Akin q) : q.entered = p.entered := by rw [h.state]

theorem running (h : p.Akin q) : q.running = p.running := by rw [h.state]

theorem paused (h : p.Akin q) : q.paused = p.paused := by rw [h.state]

theorem generation (h : p.Akin q) : q.generation = p.generation := by rw [h.state]

theorem ticking (h : p.Akin q) : q.ticking = p.ticking := by rw [h.state]

theorem hook (h : p.Akin q) (k : Hook) : q.hook k = p.hook k := by
  rw [h.state]
  cases k <;> rfl

theorem stepCount (h : p.Akin q) : q.stepCount = p.stepCount := by
  have hlt : ∀ n : Nat, n < q.parts.length ↔ n < p.parts.length := by
    intro n
    have hn := h.parts n
    generalize hp : p.parts[n]? = a at hn
    generalize hq : q.parts[n]? = b at hn
    cases hn with
    | none =>
      rw [List.getElem?_eq_none_iff] at hp hq
      omega
    | some =>
      obtain ⟨hp, -⟩ := List.getElem?_eq_some_iff.mp hp
      obtain ⟨hq, -⟩ := List.getElem?_eq_some_iff.mp hq
      omega
  show q.parts.length = p.parts.length
  have hp := hlt p.parts.length
  have hq := hlt q.parts.length
  omega

theorem info (h : p.Akin q) : q.info = p.info := by
  simp only [Sequence.info, h.name, h.stepCount, h.current, h.running, h.paused, h.validators]

theorem bookmark (h : p.Akin q) : q.bookmark = p.bookmark := by
  simp only [Sequence.bookmark, h.name, h.current]

/-- A change of the state that leaves the steps alone. -/
theorem map (h : p.Akin q) (f : Sequence → Sequence) (hf : ∀ r, (f r).parts = r.parts)
    (hs : f q = { f p with parts := (f q).parts }) : (f p).Akin (f q) :=
  ⟨hs, fun n => by rw [hf, hf]; exact h.parts n⟩

theorem rewound (h : p.Akin q) : p.rewound.Akin q.rewound :=
  h.map _ (fun _ => rfl) (by rw [h.state]; rfl)

theorem begun (h : p.Akin q) : p.begun.Akin q.begun :=
  h.map _ (fun _ => rfl) (by rw [h.state]; rfl)

theorem ended (h : p.Akin q) : p.ended.Akin q.ended :=
  h.map _ (fun _ => rfl) (by rw [h.state]; rfl)

theorem advanced (h : p.Akin q) (index : Nat) : (p.advanced index).Akin (q.advanced index) :=
  h.map _ (fun _ => rfl) (by rw [h.state]; rfl)

theorem resumed (h : p.Akin q) (index : Nat) : (p.resumed index).Akin (q.resumed index) := by
  refine h.map _ (fun _ => rfl) ?_
  simp only [Sequence.resumed, h.stepCount]
  rw [h.state]

theorem checked (h : p.Akin q) : Sequence.Akin { p with validators := [] }
    { q with validators := [] } :=
  h.map (fun r => { r with validators := [] }) (fun _ => rfl) (by rw [h.state])

theorem pausing (h : p.Akin q) (f : Bool → Bool) : Sequence.Akin { p with paused := f p.paused }
    { q with paused := f q.paused } :=
  h.map (fun r => { r with paused := f r.paused }) (fun _ => rfl) (by rw [h.state])

theorem entering (h : p.Akin q) : Sequence.Akin { p with entered := true }
    { q with entered := true } :=
  h.map (fun r => { r with entered := true }) (fun _ => rfl) (by rw [h.state])

theorem lending (h : p.Akin q) (ticking : Bool) : Sequence.Akin { p with ticking }
    { q with ticking } :=
  h.map (fun r => { r with ticking }) (fun _ => rfl) (by rw [h.state])

theorem withPart (h : p.Akin q) (index : Nat) {part part' : Part} (hpart : part.Akin part') :
    (p.withPart index part).Akin (q.withPart index part') := by
  refine ⟨by rw [h.state]; rfl, fun n => ?_⟩
  have hn := h.parts n
  have hlen : q.parts.length = p.parts.length := h.stepCount
  simp only [Sequence.withPart, List.getElem?_set, hlen]
  split
  · split
    · exact .some hpart
    · exact .none
  · exact hn

end Sequence.Akin

end Sequencer
