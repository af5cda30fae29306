import Sequencer.Progress

/-!
# What two progresses of a step have in common

Composite steps reset only what is their own when they are entered: children, and the branch that
was not chosen, keep what earlier activations left in them. Two progresses of one step agree if
they have in common what later calls can read. Children that are not under way need have nothing
in common but the entities that were resolved when the step was built.
-/

set_option autoImplicit false

namespace Sequencer

section

variable {π ρ : Type}

def Track.place (t : Track π) : Option Nat := if t.entered then some t.cursor else none

structure Track.Agree (R : Option Nat → π → π → Prop) (live : Bool) (t u : Track π) : Prop where
  place : live = true → t.cursor = u.cursor ∧ t.entered = u.entered
  children : R (if live then t.place else none) t.children u.children

structure ChoiceProgress.Agree (R : Option Nat → π → π → Prop) (S : Option Nat → ρ → ρ → Prop)
    (live : Bool) (p q : ChoiceProgress π ρ) : Prop where
  second : live = true → p.second = q.second
  yes : Track.Agree R (live && !p.second) p.yes q.yes
  no : Track.Agree S (live && p.second) p.no q.no

structure BoundedProgress.Agree (R : Option Nat → π → π → Prop) (live : Bool)
    (p q : BoundedProgress π) : Prop where
  elapsed : live = true → p.elapsed = q.elapsed
  body : Track.Agree R live p.body q.body

structure RetryProgress.Agree (R : Option Nat → π → π → Prop) (live : Bool)
    (p q : RetryProgress π) : Prop where
  failures : live = true → p.failures = q.failures
  body : Track.Agree R live p.body q.body

structure Lane.Agree (R : Bool → π → π → Prop) (live : Bool) (a b : Lane π) : Prop where
  settled : live = true → a.settled = b.settled
  child : R (live && a.settled.isNone) a.child b.child

end

mutual

def Step.Agree {κ : Type} : (s : Step κ) → Bool → s.Progress → s.Progress → Prop
  | .wait _, live => fun (p q : Float32) => live = true → p = q
  | .frames _, live => fun (p q : UInt32) => live = true → p = q
  | .component _ _ _, _ => fun (p q : EntityId) => p = q
  | .tween _, live => fun (p q : TweenProgress) => p.entity = q.entity ∧ (live = true → p = q)
  | .choose _ yes no, live => ChoiceProgress.Agree (agreeChildren yes) (agreeChildren no) live
  | .await _ _ _, live => fun (p q : AwaitProgress) => live = true → p.elapsed = q.elapsed
  | .bounded _ _ steps, live => BoundedProgress.Agree (agreeChildren steps) live
  | .retry _ steps, live => RetryProgress.Agree (agreeChildren steps) live
  | .group steps, live => Track.Agree (agreeChildren steps) live
  | .parallel _ steps, live => agreeLanes steps live
  | .barrier _ _, live => fun (p q : BarrierProgress) => live = true → p = q
  | _, _ => fun _ _ => True

def agreeChildren {κ : Type} : (l : List (Step κ)) → Option Nat → Children l → Children l → Prop
  | [], _ => fun _ _ => True
  | s :: rest, none => fun p q => s.Agree false p.1 q.1 ∧ agreeChildren rest none p.2 q.2
  | s :: rest, some 0 => fun p q => s.Agree true p.1 q.1 ∧ agreeChildren rest none p.2 q.2
  | s :: rest, some (n + 1) => fun p q =>
    s.Agree false p.1 q.1 ∧ agreeChildren rest (some n) p.2 q.2

def agreeLanes {κ : Type} : (l : List (Step κ)) → Bool → Lanes l → Lanes l → Prop
  | [], _ => fun _ _ => True
  | s :: rest, live => fun p q => Lane.Agree s.Agree live p.1 q.1 ∧ agreeLanes rest live p.2 q.2

end

/-! What was under way agrees also as what is not -/

/-- Nothing is asked of what is not under way. -/
theorem of_idle {P : Prop} (h : false = true) : P := absurd h Bool.false_ne_true

section

variable {π ρ : Type} {R : Option Nat → π → π → Prop} {S : Option Nat → ρ → ρ → Prop}

theorem Track.Agree.idle (hR : ∀ i p q, R i p q → R none p q) {live : Bool} {t u : Track π}
    (h : Track.Agree R live t u) : Track.Agree R false t u :=
  ⟨nofun, hR _ _ _ h.children⟩

theorem ChoiceProgress.Agree.idle (hR : ∀ i p q, R i p q → R none p q)
    (hS : ∀ i p q, S i p q → S none p q) {live : Bool} {p q : ChoiceProgress π ρ}
    (h : ChoiceProgress.Agree R S live p q) : ChoiceProgress.Agree R S false p q :=
  ⟨nofun, h.yes.idle hR, h.no.idle hS⟩

theorem BoundedProgress.Agree.idle (hR : ∀ i p q, R i p q → R none p q) {live : Bool}
    {p q : BoundedProgress π} (h : BoundedProgress.Agree R live p q) :
    BoundedProgress.Agree R false p q := ⟨nofun, h.body.idle hR⟩

theorem RetryProgress.Agree.idle (hR : ∀ i p q, R i p q → R none p q) {live : Bool}
    {p q : RetryProgress π} (h : RetryProgress.Agree R live p q) :
    RetryProgress.Agree R false p q := ⟨nofun, h.body.idle hR⟩

theorem Lane.Agree.idle {R : Bool → π → π → Prop} (hR : ∀ live p q, R live p q → R false p q)
    {live : Bool} {a b : Lane π} (h : Lane.Agree R live a b) : Lane.Agree R false a b :=
  ⟨nofun, hR _ _ _ h.child⟩

end

variable {κ : Type}

mutual

theorem Step.Agree.idle : (s : Step κ) → {live : Bool} → (p q : s.Progress) →
    s.Agree live p q → s.Agree false p q
  | .wait _, _, _, _, _ => of_idle
  | .frames _, _, _, _, _ => of_idle
  | .await _ _ _, _, _, _, _ => of_idle
  | .barrier _ _, _, _, _, _ => of_idle
  | .component _ _ _, _, _, _, h => h
  | .tween _, _, _, _, h => ⟨h.1, of_idle⟩
  | .choose _ yes no, _, _, _, h =>
    ChoiceProgress.Agree.idle (R := agreeChildren yes) (S := agreeChildren no)
      (fun _ => agreeChildren_idle yes) (fun _ => agreeChildren_idle no) h
  | .bounded _ _ steps, _, _, _, h =>
    BoundedProgress.Agree.idle (R := agreeChildren steps) (fun _ => agreeChildren_idle steps) h
  | .retry _ steps, _, _, _, h =>
    RetryProgress.Agree.idle (R := agreeChildren steps) (fun _ => agreeChildren_idle steps) h
  | .group steps, _, _, _, h =>
    Track.Agree.idle (R := agreeChildren steps) (fun _ => agreeChildren_idle steps) h
  | .parallel _ steps, _, _, _, h => agreeLanes_idle steps _ _ h
  | .publish _, _, _, _, _ => trivial
  | .invoke _ _, _, _, _, _ => trivial
  | .call _, _, _, _, _ => trivial
  | .startSequence _, _, _, _, _ => trivial
  | .stopSequence _, _, _, _, _ => trivial
  | .probe _ _, _, _, _, _ => trivial
  | .custom _ _ _ _, _, _, _, _ => trivial

theorem agreeChildren_idle : (l : List (Step κ)) → {i : Option Nat} → (p q : Children l) →
    agreeChildren l i p q → agreeChildren l none p q
  | [], _, _, _, _ => trivial
  | _ :: _, none, _, _, h => h
  | s :: _, some 0, _, _, h => ⟨Step.Agree.idle s _ _ h.1, h.2⟩
  | _ :: rest, some (_ + 1), _, _, h => ⟨h.1, agreeChildren_idle rest _ _ h.2⟩

theorem agreeLanes_idle : (l : List (Step κ)) → {live : Bool} → (p q : Lanes l) →
    agreeLanes l live p q → agreeLanes l false p q
  | [], _, _, _, _ => trivial
  | s :: rest, _, _, _, h =>
    ⟨Lane.Agree.idle (R := s.Agree) (fun _ => Step.Agree.idle s) h.1, agreeLanes_idle rest _ _ h.2⟩

end

mutual

theorem Step.Agree.refl : (s : Step κ) → (live : Bool) → (p : s.Progress) → s.Agree live p p
  | .wait _, _, _ => fun _ => rfl
  | .frames _, _, _ => fun _ => rfl
  | .await _ _ _, _, _ => fun _ => rfl
  | .barrier _ _, _, _ => fun _ => rfl
  | .component _ _ _, _, _ => rfl
  | .tween _, _, _ => ⟨rfl, fun _ => rfl⟩
  | .choose _ yes no, _, _ => ⟨fun _ => rfl, ⟨fun _ => ⟨rfl, rfl⟩, agreeChildren_refl yes _ _⟩,
      ⟨fun _ => ⟨rfl, rfl⟩, agreeChildren_refl no _ _⟩⟩
  | .bounded _ _ steps, _, _ =>
    ⟨fun _ => rfl, ⟨fun _ => ⟨rfl, rfl⟩, agreeChildren_refl steps _ _⟩⟩
  | .retry _ steps, _, _ => ⟨fun _ => rfl, ⟨fun _ => ⟨rfl, rfl⟩, agreeChildren_refl steps _ _⟩⟩
  | .group steps, _, _ => ⟨fun _ => ⟨rfl, rfl⟩, agreeChildren_refl steps _ _⟩
  | .parallel _ steps, _, _ => agreeLanes_refl steps _ _
  | .publish _, _, _ => trivial
  | .invoke _ _, _, _ => trivial
  | .call _, _, _ => trivial
  | .startSequence _, _, _ => trivial
  | .stopSequence _, _, _ => trivial
  | .probe _ _, _, _ => trivial
  | .custom _ _ _ _, _, _ => trivial

theorem agreeChildren_refl : (l : List (Step κ)) → (i : Option Nat) → (p : Children l) →
    agreeChildren l i p p
  | [], _, _ => trivial
  | s :: rest, none, _ => ⟨Step.Agree.refl s _ _, agreeChildren_refl rest _ _⟩
  | s :: rest, some 0, _ => ⟨Step.Agree.refl s _ _, agreeChildren_refl rest _ _⟩
  | s :: rest, some (_ + 1), _ => ⟨Step.Agree.refl s _ _, agreeChildren_refl rest _ _⟩

theorem agreeLanes_refl : (l : List (Step κ)) → (live : Bool) → (p : Lanes l) →
    agreeLanes l live p p
  | [], _, _ => trivial
  | s :: rest, _, _ => ⟨⟨fun _ => rfl, Step.Agree.refl s _ _⟩, agreeLanes_refl rest _ _⟩

end

mutual

/-- Two progresses that agree with a third one on the entities agree with one another. -/
theorem Step.Agree.common : (s : Step κ) → (p₀ p q : s.Progress) → s.Agree false p₀ p →
    s.Agree false p₀ q → s.Agree false p q
  | .wait _, _, _, _, _, _ => of_idle
  | .frames _, _, _, _, _, _ => of_idle
  | .await _ _ _, _, _, _, _, _ => of_idle
  | .barrier _ _, _, _, _, _, _ => of_idle
  | .component _ _ _, _, _, _, h, h' => Eq.trans (Eq.symm h) h'
  | .tween _, _, _, _, h, h' => ⟨h.1.symm.trans h'.1, of_idle⟩
  | .choose _ yes no, _, _, _, h, h' => ⟨of_idle,
      ⟨of_idle, agreeChildren_common yes _ _ _ h.yes.children h'.yes.children⟩,
      ⟨of_idle, agreeChildren_common no _ _ _ h.no.children h'.no.children⟩⟩
  | .bounded _ _ steps, _, _, _, h, h' => ⟨of_idle,
      ⟨of_idle, agreeChildren_common steps _ _ _ h.body.children h'.body.children⟩⟩
  | .retry _ steps, _, _, _, h, h' => ⟨of_idle,
      ⟨of_idle, agreeChildren_common steps _ _ _ h.body.children h'.body.children⟩⟩
  | .group steps, _, _, _, h, h' =>
    ⟨of_idle, agreeChildren_common steps _ _ _ h.children h'.children⟩
  | .parallel _ steps, _, _, _, h, h' => agreeLanes_common steps _ _ _ h h'
  | .publish _, _, _, _, _, _ => trivial
  | .invoke _ _, _, _, _, _, _ => trivial
  | .call _, _, _, _, _, _ => trivial
  | .startSequence _, _, _, _, _, _ => trivial
  | .stopSequence _, _, _, _, _, _ => trivial
  | .probe _ _, _, _, _, _, _ => trivial
  | .custom _ _ _ _, _, _, _, _, _ => trivial

theorem agreeChildren_common : (l : List (Step κ)) → (p₀ p q : Children l) →
    agreeChildren l none p₀ p → agreeChildren l none p₀ q → agreeChildren l none p q
  | [], _, _, _, _, _ => trivial
  | s :: rest, _, _, _, h, h' =>
    ⟨Step.Agree.common s _ _ _ h.1 h'.1, agreeChildren_common rest _ _ _ h.2 h'.2⟩

theorem agreeLanes_common : (l : List (Step κ)) → (p₀ p q : Lanes l) →
    agreeLanes l false p₀ p → agreeLanes l false p₀ q → agreeLanes l false p q
  | [], _, _, _, _, _ => trivial
  | s :: rest, _, _, _, h, h' =>
    ⟨⟨of_idle, Step.Agree.common s _ _ _ h.1.child h'.1.child⟩,
      agreeLanes_common rest _ _ _ h.2 h'.2⟩

end

end Sequencer
