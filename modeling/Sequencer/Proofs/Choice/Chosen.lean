import Sequencer.Proofs.Activation.Meets

/-!
# What a choice chose

The journal tells which list of a choice was chosen last. To enter a choice is to ask its
question, and when the question is answered entering is over, so that the answer stands right
before the return. If the question panics the call does not return.
-/

set_option autoImplicit false

namespace Sequencer

open Site (Nowhere Within Below)

namespace Site

def parent? : Site → Option (Site × Bool)
  | .child σ _ => some (σ, true)
  | .otherwise σ _ => some (σ, false)
  | _ => none

def branch (σ : Site) : Bool → Nat → Site
  | true => σ.child
  | false => σ.otherwise

def Beneath (σ : Site) (b : Bool) (n : Nat) (τ : Site) : Prop := ∃ i, n ≤ i ∧ Within (σ.branch b i) τ

variable {σ τ υ : Site} {b c : Bool} {i n : Nat}

@[simp] theorem parent?_branch : (σ.branch b i).parent? = some (σ, b) := by
  cases b <;> rfl

@[simp] theorem root_branch : (σ.branch b i).root = σ.root := by
  cases b <;> rfl

theorem below_branch (σ : Site) (b : Bool) (i : Nat) : σ.Below (σ.branch b i) := by
  cases b with
  | true => exact below_child i
  | false => exact below_otherwise i

theorem not_within_parent (h : τ.parent? = some (σ, b)) : ¬ τ.Within σ := by
  intro hw
  have hle := hw.depth_le
  cases τ with
  | child υ i =>
    obtain ⟨rfl, -⟩ := Prod.mk.inj (Option.some.inj h)
    exact absurd hle (by simp [depth])
  | otherwise υ i =>
    obtain ⟨rfl, -⟩ := Prod.mk.inj (Option.some.inj h)
    exact absurd hle (by simp [depth])
  | _ => exact absurd h (by simp [parent?])

theorem root_parent (h : τ.parent? = some (σ, b)) : σ.root = τ.root := by
  cases τ with
  | child υ i =>
    obtain ⟨rfl, -⟩ := Prod.mk.inj (Option.some.inj h)
    rfl
  | otherwise υ i =>
    obtain ⟨rfl, -⟩ := Prod.mk.inj (Option.some.inj h)
    rfl
  | _ => exact absurd h (by simp [parent?])

/-- Nothing is below two steps of the lists of one step. -/
theorem branch_unique {k : Nat} (h : (σ.branch b i).Within υ) (h' : (σ.branch c k).Within υ) :
    b = c ∧ i = k := by
  have hd : (σ.branch b i).depth = (σ.branch c k).depth := by cases b <;> cases c <;> rfl
  have heq := h.unique h' hd
  cases b <;> cases c <;> simp_all [branch]

theorem Beneath.of_branch (h : (σ.branch b n).Within τ) : σ.Beneath b n τ :=
  ⟨n, Nat.le_refl n, h⟩

theorem Beneath.of_succ (h : σ.Beneath b (n + 1) τ) : σ.Beneath b n τ := by
  obtain ⟨i, hi, h⟩ := h
  exact ⟨i, by omega, h⟩

theorem Beneath.disjoint {m : Nat} (hbc : b ≠ c) (h : σ.Beneath b n τ) : ¬ σ.Beneath c m τ := by
  rintro ⟨k, -, h'⟩
  obtain ⟨i, -, h⟩ := h
  exact hbc (branch_unique h h').1

theorem Beneath.below (h : σ.Beneath b n τ) : σ.Below τ := by
  obtain ⟨i, -, h⟩ := h
  exact (below_branch σ b i).trans_within h

end Site

def answered (σ : Site) : List Entry → Option Bool
  | .returned τ none :: .polled (.step υ) _ answer :: j =>
    if τ = σ ∧ υ = σ ∧ Phase.of σ j = .entering then some answer else none
  | _ => none

/-- The last answer to the question of the choice at a site, none if it was never answered. -/
def chosen : List Entry → Site → Option Bool
  | [], _ => none
  | e :: j, σ => (answered σ (e :: j)).or (chosen j σ)

def Entry.enters (σ : Site) : Entry → Bool
  | .called τ .enter => τ = σ
  | _ => false

theorem Entry.enters_iff {σ : Site} {e : Entry} : e.enters σ = true ↔ e = .called σ .enter := by
  cases e with
  | called τ c => cases c <;> simp [enters]
  | _ => simp [enters]

def sinceEntered (σ : Site) : List Entry → List Entry
  | [] => []
  | e :: j => if e.enters σ then [e] else e :: sinceEntered σ j

section

variable {σ τ : Site} {l j : List Entry} {e : Entry} {b : Bool}

theorem answered_of_ne (h : e.site? ≠ some σ) (j : List Entry) : answered σ (e :: j) = none := by
  unfold answered
  split
  · next τ υ id answer rest heq =>
    obtain ⟨rfl, -⟩ := List.cons.inj heq
    exact if_neg fun hσ => h (congrArg some hσ.1)
  · rfl

theorem chosen_cons_ne (h : e.site? ≠ some σ) (j : List Entry) :
    chosen (e :: j) σ = chosen j σ := by
  rw [chosen, answered_of_ne h, Option.none_or]

theorem chosen_append (h : ∀ e ∈ l, e.site? ≠ some σ) (j : List Entry) :
    chosen (l ++ j) σ = chosen j σ := by
  induction l with
  | nil => rfl
  | cons e l ih =>
    rw [List.cons_append, chosen_cons_ne (h e List.mem_cons_self)]
    exact ih fun e' he' => h e' (List.mem_cons_of_mem _ he')

theorem chosen_of_silent (h : ∀ e ∈ l, e.site? ≠ some σ) : chosen l σ = none := by
  have hl := chosen_append h []
  rwa [List.append_nil] at hl

/-- Calls choose nothing. -/
@[simp] theorem chosen_called (τ : Site) (c : Call) (j : List Entry) :
    chosen (.called τ c :: j) = chosen j := rfl

theorem chosen_answered (h : Phase.of σ j = .entering) (id : Option String) (b : Bool) :
    chosen (.returned σ none :: .polled (.step σ) id b :: j) σ = some b := by
  simp [chosen, answered, h]

/-- A return that does not end an entering changes nothing. -/
theorem chosen_returned (h : Phase.of σ j ≠ .entering) :
    chosen (.returned σ none :: j) = chosen j := by
  funext τ
  by_cases hτ : σ = τ
  · subst hτ
    have hnone : answered σ (.returned σ none :: j) = none := by
      unfold answered
      split
      · next υ υ' id answer rest heq =>
        obtain ⟨-, rfl⟩ := List.cons.inj heq
        refine if_neg fun hσ => h ?_
        rw [Phase.of_cons_ne (by simp [Entry.site?])]
        exact hσ.2.2
      · rfl
    rw [chosen, hnone, Option.none_or]
  · exact chosen_cons_ne (by simpa [Entry.site?] using hτ) j

/-- Of what came before the two newest entries only the phase matters. -/
theorem answered_congr {l l' : List Entry} (h : Phase.of σ l = Phase.of σ l') (e x : Entry) :
    answered σ (e :: x :: l) = answered σ (e :: x :: l') := by
  cases e with
  | returned τ r =>
    cases r with
    | some status => rfl
    | none =>
      cases x with
      | polled asker id answer => cases asker <;> simp only [answered, h]
      | _ => rfl
  | _ => rfl

theorem phase_sinceEntered (j : List Entry) : Phase.of σ (sinceEntered σ j) = Phase.of σ j := by
  induction j with
  | nil => rfl
  | cons e j ih =>
    rw [sinceEntered]
    split
    · next he => rw [Entry.enters_iff.mp he, Phase.of_called, Phase.of_called]
    · exact congrArg (Phase.after σ e) ih

theorem answered_sinceEntered (e : Entry) (j : List Entry) :
    answered σ (e :: sinceEntered σ j) = answered σ (e :: j) := by
  cases j with
  | nil => rfl
  | cons x j =>
    rw [sinceEntered]
    split
    · next hx =>
      rw [Entry.enters_iff.mp hx]
      cases e with
      | returned τ r => cases r <;> rfl
      | _ => rfl
    · exact answered_congr (phase_sinceEntered j) e x

/-- What was chosen in the last activation is what was chosen last. -/
theorem chosen_of_sinceEntered (h : chosen (sinceEntered σ j) σ = some b) :
    chosen j σ = some b := by
  induction j with
  | nil => exact h
  | cons e j ih =>
    rw [sinceEntered] at h
    split at h
    · next he =>
      rw [Entry.enters_iff.mp he, chosen_called] at h
      exact absurd h (by simp [chosen])
    · rw [chosen, answered_sinceEntered] at h
      rw [chosen]
      cases ha : answered σ (e :: j) with
      | some a =>
        rw [ha] at h
        exact h
      | none =>
        rw [ha, Option.none_or] at h
        exact ih h

end

/-! What calls have to do with what was chosen -/

def Step.isChoice {κ : Type} : Step κ → Bool
  | .choose _ _ _ => true
  | _ => false

def Chooses (steps : Site → Option (Step Command)) (σ : Site) : Prop :=
  ∃ question yes no, steps σ = some (.choose question yes no)

section

variable {steps : Site → Option (Step Command)} {σ : Site}

theorem chooses_iff : Chooses steps σ ↔ (steps σ).any Step.isChoice = true := by
  constructor
  · rintro ⟨question, yes, no, hσ⟩
    rw [hσ]
    rfl
  · intro h
    cases hσ : steps σ with
    | none => exact absurd h (by simp [hσ])
    | some s =>
      rw [hσ] at h
      cases s with
      | choose question yes no => exact ⟨question, yes, no, hσ⟩
      | _ => exact absurd h (by simp [Step.isChoice])

instance : Decidable (Chooses steps σ) := decidable_of_iff _ chooses_iff.symm

theorem not_chooses {s : Step Command} (h : steps σ = some s) (hs : s.isChoice = false) :
    ¬ Chooses steps σ := by
  rw [chooses_iff, h, Option.any_some, hs]
  exact Bool.false_ne_true

end

/-- A choice at the site is being ticked, and the list that it chose last is the first one, or the
second one; a choice that never chose has its first list. -/
def Granted (steps : Site → Option (Step Command)) (σ : Site) (b : Bool) (j : List Entry) : Prop :=
  Chooses steps σ → Phase.of σ j = .ticking ∧ (chosen j σ).getD true = b

def Welcome (steps : Site → Option (Step Command)) (τ : Site) (j : List Entry) : Prop :=
  ∀ σ b, τ.parent? = some (σ, b) → Granted steps σ b j

/-- A choice calls only steps of the list that it chose last, and entering it comes to its end only
when its question is answered. -/
def Entry.Fits (steps : Site → Option (Step Command)) (e : Entry) (j : List Entry) : Prop :=
  match e with
  | .called τ _ => Welcome steps τ j
  | .returned σ none => Chooses steps σ → Phase.of σ j = .entering →
    ∃ id answer j', j = .polled (.step σ) id answer :: j'
  | _ => True

def Fitting (steps : Site → Option (Step Command)) (id : Nat) : List Entry → Prop
  | [] => True
  | e :: j => (∀ σ, e.site? = some σ → σ.root = some id → e.Fits steps j) ∧ Fitting steps id j

def Stable (id : Nat) (own : Site → Prop) (B : List Entry → Prop) : Prop :=
  ∀ l j, (∀ e ∈ l, ∀ τ, e.site? = some τ → τ.root = some id → own τ) → B j → B (l ++ j)

section

variable {steps steps' : Site → Option (Step Command)} {id : Nat} {σ τ : Site} {b : Bool}
  {own own' : Site → Prop} {B C : List Entry → Prop} {l j : List Entry} {e : Entry}

theorem welcome_branch {i : Nat} : Welcome steps (σ.branch b i) j ↔ Granted steps σ b j := by
  constructor
  · exact fun h => h σ b Site.parent?_branch
  · intro h σ' b' hp
    rw [Site.parent?_branch] at hp
    obtain ⟨rfl, rfl⟩ := Prod.mk.inj (Option.some.inj hp)
    exact h

namespace Stable

theorem and (hB : Stable id own B) (hC : Stable id own C) : Stable id own fun j => B j ∧ C j :=
  fun l j hl h => ⟨hB l j hl h.1, hC l j hl h.2⟩

theorem mono (h : Stable id own B) (ho : ∀ σ, own' σ → own σ) : Stable id own' B :=
  fun l j hl => h l j fun e he τ hτ hr => ho τ (hl e he τ hτ hr)

/-- What depends only on a site of the sequence that is no `own` one. -/
theorem elsewhere (hr : σ.root = some id) (hσ : ¬ own σ)
    (h : ∀ l j, (∀ e ∈ l, e.site? ≠ some σ) → B j → B (l ++ j)) : Stable id own B :=
  fun l j hl => h l j fun e he hs => hσ (hl e he σ hs hr)

theorem phase {φ : Phase} (hr : σ.root = some id) (hσ : ¬ own σ) :
    Stable id own fun j => Phase.of σ j = φ :=
  elsewhere hr hσ fun _ j hl h => (Phase.of_append hl j).trans h

theorem granted (hr : σ.root = some id) (hσ : ¬ own σ) : Stable id own (Granted steps σ b) := by
  refine elsewhere (B := Granted steps σ b) hr hσ fun l j hl h hc => ?_
  rw [Phase.of_append hl, chosen_append hl]
  exact h hc

theorem welcome (hr : τ.root = some id) (hτ : ∀ σ b, τ.parent? = some (σ, b) → ¬ own σ) :
    Stable id own (Welcome steps τ) :=
  fun l j hl h σ b hp => granted ((Site.root_parent hp).trans hr) (hτ σ b hp) l j hl (h σ b hp)

end Stable

theorem Fitting.append (hl : ∀ e ∈ l, ∀ σ, e.site? = some σ → σ.root = some id → False)
    (h : Fitting steps id j) : Fitting steps id (l ++ j) := by
  induction l with
  | nil => exact h
  | cons e l ih =>
    refine ⟨fun σ hσ hr => absurd hr fun hr => hl e List.mem_cons_self σ hσ hr, ih ?_⟩
    exact fun e' he' => hl e' (List.mem_cons_of_mem _ he')

theorem Fitting.stable : Stable id Nowhere (Fitting steps id) := fun _ _ => Fitting.append

theorem Fitting.of_append (h : Fitting steps id (l ++ j)) : Fitting steps id j := by
  induction l with
  | nil => exact h
  | cons e l ih => exact ih h.2

theorem Fitting.fits (h : Fitting steps id (l ++ e :: j)) (hσ : e.site? = some σ)
    (hr : σ.root = some id) : e.Fits steps j := h.of_append.1 σ hσ hr

/-- Only the steps of the sequence itself matter. -/
theorem Fitting.congr (hs : ∀ σ, σ.root = some id → steps' σ = steps σ)
    (h : Fitting steps id j) : Fitting steps' id j := by
  have hchooses : ∀ σ, σ.root = some id → Chooses steps' σ → Chooses steps σ := by
    rintro σ hr ⟨question, yes, no, hσ⟩
    exact ⟨question, yes, no, (hs σ hr).symm.trans hσ⟩
  induction j with
  | nil => trivial
  | cons e j ih =>
    refine ⟨fun σ hσ hr => ?_, ih h.2⟩
    have he := h.1 σ hσ hr
    cases e with
    | called τ c =>
      obtain rfl := Option.some.inj hσ
      exact fun υ b hp hc => he υ b hp (hchooses υ ((Site.root_parent hp).trans hr) hc)
    | returned τ r =>
      obtain rfl := Option.some.inj hσ
      cases r with
      | none => exact fun hc => he (hchooses _ hr hc)
      | some status => trivial
    | _ => trivial

end

end Sequencer
