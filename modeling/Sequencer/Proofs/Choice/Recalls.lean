import Sequencer.Proofs.Choice.Chosen

/-!
# Progress that recalls what was chosen

Every choice in a tree of steps remembers the list that it chose last, whether or not it is under
way: nothing but an answer of its condition ever changes that.
-/

set_option autoImplicit false

namespace Sequencer

open Site (Within Below Beneath)

def ChoiceProgress.Recalls {π ρ : Type} (Y : π → (Site → Option Bool) → Prop)
    (N : ρ → (Site → Option Bool) → Prop) (σ : Site) (p : ChoiceProgress π ρ)
    (A : Site → Option Bool) : Prop :=
  (A σ).getD true = (!p.second) ∧ Y p.yes.children A ∧ N p.no.children A

mutual

/-- Every choice in the tree of a step at a site has the list that it chose last. -/
def Step.Recalls : (s : Step Command) → Site → s.Progress → (Site → Option Bool) → Prop
  | .choose _ yes no, σ =>
    ChoiceProgress.Recalls (recallsChildren yes σ true 0) (recallsChildren no σ false 0) σ
  | .bounded _ _ steps, σ => fun (p : BoundedProgress (Children steps)) =>
    recallsChildren steps σ true 0 p.body.children
  | .retry _ steps, σ => fun (p : RetryProgress (Children steps)) =>
    recallsChildren steps σ true 0 p.body.children
  | .group steps, σ => fun (p : Track (Children steps)) =>
    recallsChildren steps σ true 0 p.children
  | .parallel _ steps, σ => recallsLanes steps σ 0
  | _, _ => fun _ _ => True

def recallsChildren : (l : List (Step Command)) → Site → Bool → Nat → Children l →
    (Site → Option Bool) → Prop
  | [], _, _, _ => fun _ _ => True
  | s :: rest, σ, b, n => fun p A =>
    s.Recalls (σ.branch b n) p.1 A ∧ recallsChildren rest σ b (n + 1) p.2 A

def recallsLanes : (l : List (Step Command)) → Site → Nat → Lanes l → (Site → Option Bool) → Prop
  | [], _, _ => fun _ _ => True
  | s :: rest, σ, n => fun p A =>
    s.Recalls (σ.branch true n) p.1.child A ∧ recallsLanes rest σ (n + 1) p.2 A

end

theorem Step.recalls_leaf {s : Step Command} (h : s.isLeaf = true) (σ : Site) (p : s.Progress)
    (A : Site → Option Bool) : s.Recalls σ p A := by
  cases s <;> trivial

section

variable {A B : Site → Option Bool}

mutual

/-- Only what was chosen below a step matters, and what it chose itself if it is a choice. -/
theorem Step.Recalls.congr_below : (s : Step Command) → (σ : Site) → (p : s.Progress) →
    (∀ τ, σ.Below τ → B τ = A τ) → (s.isChoice = true → B σ = A σ) → s.Recalls σ p A →
    s.Recalls σ p B
  | .choose _ yes no, σ, _, hs, hself, h => ⟨by rw [hself rfl]; exact h.1,
      recallsChildren_congr yes σ true 0 _ (fun τ hτ => hs τ hτ.below) h.2.1,
      recallsChildren_congr no σ false 0 _ (fun τ hτ => hs τ hτ.below) h.2.2⟩
  | .bounded _ _ steps, σ, _, hs, _, h =>
    recallsChildren_congr steps σ true 0 _ (fun τ hτ => hs τ hτ.below) h
  | .retry _ steps, σ, _, hs, _, h =>
    recallsChildren_congr steps σ true 0 _ (fun τ hτ => hs τ hτ.below) h
  | .group steps, σ, _, hs, _, h =>
    recallsChildren_congr steps σ true 0 _ (fun τ hτ => hs τ hτ.below) h
  | .parallel _ steps, σ, p, hs, _, h =>
    recallsLanes_congr steps σ 0 p (fun τ hτ => hs τ hτ.below) h
  | .wait _, _, _, _, _, _ => trivial
  | .frames _, _, _, _, _, _ => trivial
  | .publish _, _, _, _, _, _ => trivial
  | .invoke _ _, _, _, _, _, _ => trivial
  | .component _ _ _, _, _, _, _, _ => trivial
  | .call _, _, _, _, _, _ => trivial
  | .startSequence _, _, _, _, _, _ => trivial
  | .stopSequence _, _, _, _, _, _ => trivial
  | .tween _, _, _, _, _, _ => trivial
  | .await _ _ _, _, _, _, _, _ => trivial
  | .barrier _ _, _, _, _, _, _ => trivial
  | .probe _ _, _, _, _, _, _ => trivial
  | .custom _ _ _ _, _, _, _, _, _ => trivial

theorem recallsChildren_congr : (l : List (Step Command)) → (σ : Site) → (b : Bool) → (n : Nat) →
    (p : Children l) → (∀ τ, σ.Beneath b n τ → B τ = A τ) → recallsChildren l σ b n p A →
    recallsChildren l σ b n p B
  | [], _, _, _, _, _, _ => trivial
  | s :: rest, σ, b, n, p, hs, h =>
    ⟨Step.Recalls.congr_below s _ p.1 (fun τ hτ => hs τ (.of_branch hτ.within))
        (fun _ => hs _ (.of_branch .here)) h.1,
      recallsChildren_congr rest σ b (n + 1) p.2 (fun τ hτ => hs τ hτ.of_succ) h.2⟩

theorem recallsLanes_congr : (l : List (Step Command)) → (σ : Site) → (n : Nat) →
    (p : Lanes l) → (∀ τ, σ.Beneath true n τ → B τ = A τ) → recallsLanes l σ n p A →
    recallsLanes l σ n p B
  | [], _, _, _, _, _ => trivial
  | s :: rest, σ, n, p, hs, h =>
    ⟨Step.Recalls.congr_below s _ p.1.child (fun τ hτ => hs τ (.of_branch hτ.within))
        (fun _ => hs _ (.of_branch .here)) h.1,
      recallsLanes_congr rest σ (n + 1) p.2 (fun τ hτ => hs τ hτ.of_succ) h.2⟩

end

theorem Step.Recalls.congr {s : Step Command} {σ : Site} {p : s.Progress}
    (hs : ∀ τ, σ.Within τ → B τ = A τ) (h : s.Recalls σ p A) : s.Recalls σ p B :=
  h.congr_below s σ p (fun τ hτ => hs τ hτ.within) fun _ => hs σ .here

mutual

/-- A step that was just built has the first list of every choice, as long as nothing was chosen
there. -/
theorem Step.recalls_fresh (resolve : String → EntityId) : (s : Step Command) → (σ : Site) →
    (∀ τ, σ.Within τ → A τ = none) → s.Recalls σ (s.fresh resolve) A
  | .choose _ yes no, σ, hA => ⟨by rw [hA σ .here]; rfl,
      recallsChildren_fresh resolve yes σ true 0 fun τ hτ => hA τ hτ.below.within,
      recallsChildren_fresh resolve no σ false 0 fun τ hτ => hA τ hτ.below.within⟩
  | .bounded _ _ steps, σ, hA =>
    recallsChildren_fresh resolve steps σ true 0 fun τ hτ => hA τ hτ.below.within
  | .retry _ steps, σ, hA =>
    recallsChildren_fresh resolve steps σ true 0 fun τ hτ => hA τ hτ.below.within
  | .group steps, σ, hA =>
    recallsChildren_fresh resolve steps σ true 0 fun τ hτ => hA τ hτ.below.within
  | .parallel _ steps, σ, hA =>
    recallsLanes_fresh resolve steps σ 0 fun τ hτ => hA τ hτ.below.within
  | .wait _, _, _ => trivial
  | .frames _, _, _ => trivial
  | .publish _, _, _ => trivial
  | .invoke _ _, _, _ => trivial
  | .component _ _ _, _, _ => trivial
  | .call _, _, _ => trivial
  | .startSequence _, _, _ => trivial
  | .stopSequence _, _, _ => trivial
  | .tween _, _, _ => trivial
  | .await _ _ _, _, _ => trivial
  | .barrier _ _, _, _ => trivial
  | .probe _ _, _, _ => trivial
  | .custom _ _ _ _, _, _ => trivial

theorem recallsChildren_fresh (resolve : String → EntityId) : (l : List (Step Command)) →
    (σ : Site) → (b : Bool) → (n : Nat) → (∀ τ, σ.Beneath b n τ → A τ = none) →
    recallsChildren l σ b n (freshChildren resolve l) A
  | [], _, _, _, _ => trivial
  | s :: rest, σ, b, n, hA =>
    ⟨s.recalls_fresh resolve (σ.branch b n) fun τ hτ => hA τ (.of_branch hτ),
      recallsChildren_fresh resolve rest σ b (n + 1) fun τ hτ => hA τ hτ.of_succ⟩

theorem recallsLanes_fresh (resolve : String → EntityId) : (l : List (Step Command)) →
    (σ : Site) → (n : Nat) → (∀ τ, σ.Beneath true n τ → A τ = none) →
    recallsLanes l σ n (freshLanes resolve l) A
  | [], _, _, _ => trivial
  | s :: rest, σ, n, hA =>
    ⟨s.recalls_fresh resolve (σ.branch true n) fun τ hτ => hA τ (.of_branch hτ),
      recallsLanes_fresh resolve rest σ (n + 1) fun τ hτ => hA τ hτ.of_succ⟩

end

end

end Sequencer
