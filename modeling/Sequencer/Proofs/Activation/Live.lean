import Sequencer.Proofs.Activation.Phase

/-!
# Live progress

While a step is under way its progress has to agree with the phases of the steps below it: a list
that has entered its child is right in saying so, and so is a parallel step about every child that
has not settled. What an abandoned child remembers says nothing, since it is entered before it is
called again.
-/

set_option autoImplicit false

namespace Sequencer

namespace Site

def depth : Site → Nat
  | .top _ _ => 0
  | .held _ => 0
  | .child parent _ => parent.depth + 1
  | .otherwise parent _ => parent.depth + 1

variable {σ τ υ : Site}

theorem Within.depth_le (h : σ.Within τ) : σ.depth ≤ τ.depth := by
  induction h with
  | here => exact Nat.le_refl _
  | child i _ ih => exact Nat.le_succ_of_le ih
  | otherwise i _ ih => exact Nat.le_succ_of_le ih

theorem Below.depth_lt (h : σ.Below τ) : σ.depth < τ.depth := by
  obtain ⟨i, h | h⟩ := h
  · exact h.depth_le
  · exact h.depth_le

theorem not_below_self (σ : Site) : ¬ σ.Below σ := fun h => Nat.lt_irrefl _ h.depth_lt

/-- A site is within one site of each depth at most. -/
theorem Within.unique (h : σ.Within υ) (h' : τ.Within υ) (hd : σ.depth = τ.depth) : σ = τ := by
  induction h with
  | here =>
    cases h' with
    | here => rfl
    | child i h' =>
      have hle := h'.depth_le
      simp only [depth] at hd
      omega
    | otherwise i h' =>
      have hle := h'.depth_le
      simp only [depth] at hd
      omega
  | child i h ih =>
    have hle := h.depth_le
    cases h' with
    | here =>
      simp only [depth] at hd
      omega
    | child _ h' => exact ih h'
  | otherwise i h ih =>
    have hle := h.depth_le
    cases h' with
    | here =>
      simp only [depth] at hd
      omega
    | otherwise _ h' => exact ih h'

theorem Below.trans_within (h : σ.Below τ) (h' : τ.Within υ) : σ.Below υ := by
  obtain ⟨i, h | h⟩ := h
  · exact (h.trans h').below_of_child
  · exact (h.trans h').below_of_otherwise

theorem not_from_of_within {i n : Nat} (h : (Site.child σ i).Within υ) (hi : i < n) :
    ¬ σ.From n υ := by
  rintro ⟨k, hk, h'⟩
  have hik : Site.child σ i = Site.child σ k := h.unique h' rfl
  obtain ⟨-, rfl⟩ := Site.child.inj hik
  omega

theorem not_within_of_from {i n : Nat} (h : σ.From n υ) (hi : i < n) :
    ¬ (Site.child σ i).Within υ := fun h' => not_from_of_within h' hi h

theorem Within.eq_or_below (h : σ.Within τ) : σ = τ ∨ σ.Below τ := by
  induction h with
  | here => exact .inl rfl
  | child i _ ih =>
    rcases ih with rfl | ih
    · exact .inr (below_child i)
    · exact .inr (ih.trans_within (Within.here.child i))
  | otherwise i _ ih =>
    rcases ih with rfl | ih
    · exact .inr (below_otherwise i)
    · exact .inr (ih.trans_within (Within.here.otherwise i))

theorem Within.trans_below (h : σ.Within τ) (h' : τ.Below υ) : σ.Below υ := by
  rcases h.eq_or_below with rfl | h
  · exact h'
  · exact h.trans_within h'.within

end Site

abbrev Phases := Site → Phase

def phases (id : Nat) (l : List Entry) : Phases := fun σ =>
  if σ.root = some id then Phase.of σ l else .idle

section

variable {id : Nat} {σ τ : Site} {l j : List Entry}

theorem phases_root (h : σ.root = some id) (l : List Entry) :
    phases id l σ = Phase.of σ l := if_pos h

/-- Entries of a sequence that keep to some of its sites leave the others in their phases. -/
theorem phases_append {own : Site → Prop}
    (hl : ∀ e ∈ l, ∀ τ, e.site? = some τ → τ.root = some id → own τ) (hσ : ¬ own σ)
    (j : List Entry) : phases id (l ++ j) σ = phases id j σ := by
  unfold phases
  split
  · next hr =>
    exact Phase.of_append (fun e he hσ' => hσ (hl e he σ hσ' hr)) j
  · rfl

theorem phases_append_foreign (hl : ∀ e ∈ l, ∀ τ, e.site? = some τ → τ.root = some id → False)
    (j : List Entry) : phases id (l ++ j) = phases id j := by
  funext σ
  have hown : ∀ e ∈ l, ∀ τ, e.site? = some τ → τ.root = some id → Site.Nowhere τ := hl
  exact phases_append hown (fun h => h) j

theorem phases_called (h : σ.root = some id) (c : Call) (j : List Entry) :
    phases id (.called σ c :: j) σ = c.phase := by
  rw [phases_root h, Phase.of_called]

theorem phases_returned (h : σ.root = some id) (r : Option Status) (j : List Entry) :
    phases id (.returned σ r :: j) σ = (phases id j σ).ended r := by
  rw [phases_root h, phases_root h, Phase.of_returned]

theorem phases_cons_ne {e : Entry} (h : e.site? ≠ some σ) (j : List Entry) :
    phases id (e :: j) σ = phases id j σ := by
  unfold phases
  rw [Phase.of_cons_ne h]

end

def Rests (σ : Site) (φ : Phases) : Prop := ∀ τ, σ.Below τ → (φ τ).IsQuiet

def SameBelow (σ : Site) (φ ψ : Phases) : Prop := ∀ τ, σ.Below τ → ψ τ = φ τ

theorem Rests.congr {σ : Site} {φ ψ : Phases} (h : Rests σ φ) (hs : SameBelow σ φ ψ) : Rests σ ψ :=
  fun τ hτ => by rw [hs τ hτ]; exact h τ hτ

theorem Rests.within {σ τ : Site} {φ : Phases} (h : Rests σ φ) (hτ : σ.Within τ) : Rests τ φ :=
  fun υ hυ => h υ (hτ.trans_below hυ)

theorem SameBelow.within {σ τ : Site} {φ ψ : Phases} (h : SameBelow σ φ ψ) (hτ : σ.Within τ) :
    SameBelow τ φ ψ := fun υ hυ => h υ (hτ.trans_below hυ)

def Track.Live {π : Type} (L : Nat → π → Phases → Prop) (site : Nat → Site) (t : Track π)
    (φ : Phases) : Prop :=
  t.entered = true → φ (site t.cursor) = .underway ∧ L t.cursor t.children φ

def ChoiceProgress.Live {π ρ : Type} (L : Nat → π → Phases → Prop) (M : Nat → ρ → Phases → Prop)
    (σ : Site) (p : ChoiceProgress π ρ) (φ : Phases) : Prop :=
  if p.second then p.no.Live M σ.otherwise φ else p.yes.Live L σ.child φ

def Lane.Live {π : Type} (L : π → Phases → Prop) (σ : Site) (a : Lane π) (φ : Phases) : Prop :=
  a.settled = none → φ σ = .underway ∧ L a.child φ

mutual

def Step.Live : (s : Step Command) → Site → s.Progress → Phases → Prop
  | .choose _ yes no, σ => ChoiceProgress.Live (fun i => liveNth yes (σ.child i) i)
      (fun i => liveNth no (σ.otherwise i) i) σ
  | .bounded _ _ steps, σ => fun (p : BoundedProgress (Children steps)) =>
    Track.Live (fun i => liveNth steps (σ.child i) i) σ.child p.body
  | .retry _ steps, σ => fun (p : RetryProgress (Children steps)) =>
    Track.Live (fun i => liveNth steps (σ.child i) i) σ.child p.body
  | .group steps, σ => Track.Live (fun i => liveNth steps (σ.child i) i) σ.child
  | .parallel _ steps, σ => liveLanes steps σ 0
  | _, _ => fun _ _ => True

def liveNth : (l : List (Step Command)) → Site → Nat → Children l → Phases → Prop
  | [], _, _ => fun _ _ => True
  | s :: _, σ, 0 => fun p => s.Live σ p.1
  | _ :: rest, σ, n + 1 => fun p => liveNth rest σ n p.2

def liveLanes : (l : List (Step Command)) → Site → Nat → Lanes l → Phases → Prop
  | [], _, _ => fun _ _ => True
  | s :: rest, σ, index => fun p φ =>
    Lane.Live (s.Live (σ.child index)) (σ.child index) p.1 φ ∧ liveLanes rest σ (index + 1) p.2 φ

end

theorem Track.Live.congr {π : Type} {L : Nat → π → Phases → Prop} {site : Nat → Site}
    {t : Track π} {φ ψ : Phases} (hL : ∀ i p, SameBelow (site i) φ ψ → L i p φ → L i p ψ)
    {σ : Site} (hsite : ∀ i, σ.Below (site i)) (hs : SameBelow σ φ ψ) (h : t.Live L site φ) :
    t.Live L site ψ := by
  intro he
  obtain ⟨hu, hl⟩ := h he
  constructor
  · rw [hs _ (hsite _)]
    exact hu
  · exact hL _ _ (hs.within (hsite _).within) hl

theorem ChoiceProgress.Live.congr {π ρ : Type} {L : Nat → π → Phases → Prop}
    {M : Nat → ρ → Phases → Prop} {σ : Site} {p : ChoiceProgress π ρ} {φ ψ : Phases}
    (hL : ∀ i p, SameBelow (σ.child i) φ ψ → L i p φ → L i p ψ)
    (hM : ∀ i p, SameBelow (σ.otherwise i) φ ψ → M i p φ → M i p ψ) (hs : SameBelow σ φ ψ)
    (h : p.Live L M σ φ) : p.Live L M σ ψ := by
  unfold ChoiceProgress.Live at h ⊢
  split
  · next hsecond =>
    rw [if_pos hsecond] at h
    exact h.congr hM Site.below_otherwise hs
  · next hsecond =>
    rw [if_neg hsecond] at h
    exact h.congr hL Site.below_child hs

theorem Lane.Live.congr {π : Type} {L : π → Phases → Prop} {σ : Site} {a : Lane π} {φ ψ : Phases}
    (hL : ∀ p, SameBelow σ φ ψ → L p φ → L p ψ) (hs : ∀ τ, σ.Within τ → ψ τ = φ τ)
    (h : a.Live L σ φ) : a.Live L σ ψ := by
  intro hsettled
  obtain ⟨hu, hl⟩ := h hsettled
  exact ⟨(hs σ .here).trans hu, hL _ (fun τ hτ => hs τ hτ.within) hl⟩

mutual

/-- Only the phases below a step matter to its progress. -/
theorem Step.Live.congr {φ ψ : Phases} : (s : Step Command) → (σ : Site) → (p : s.Progress) →
    SameBelow σ φ ψ → s.Live σ p φ → s.Live σ p ψ
  | .choose _ yes no, σ, _, hs, h => ChoiceProgress.Live.congr
      (L := fun i => liveNth yes (σ.child i) i) (M := fun i => liveNth no (σ.otherwise i) i)
      (fun i p => liveNth_congr yes (σ.child i) i p)
      (fun i p => liveNth_congr no (σ.otherwise i) i p) hs h
  | .bounded _ _ steps, σ, _, hs, h => Track.Live.congr (L := fun i => liveNth steps (σ.child i) i)
      (fun i p => liveNth_congr steps (σ.child i) i p) Site.below_child hs h
  | .retry _ steps, σ, _, hs, h => Track.Live.congr (L := fun i => liveNth steps (σ.child i) i)
      (fun i p => liveNth_congr steps (σ.child i) i p) Site.below_child hs h
  | .group steps, σ, _, hs, h => Track.Live.congr (L := fun i => liveNth steps (σ.child i) i)
      (fun i p => liveNth_congr steps (σ.child i) i p) Site.below_child hs h
  | .parallel _ steps, σ, p, hs, h =>
    liveLanes_congr steps σ 0 p (fun _ hτ => hs _ hτ.below) h
  | .wait _, _, _, _, _ => trivial
  | .frames _, _, _, _, _ => trivial
  | .publish _, _, _, _, _ => trivial
  | .invoke _ _, _, _, _, _ => trivial
  | .component _ _ _, _, _, _, _ => trivial
  | .call _, _, _, _, _ => trivial
  | .startSequence _, _, _, _, _ => trivial
  | .stopSequence _, _, _, _, _ => trivial
  | .tween _, _, _, _, _ => trivial
  | .await _ _ _, _, _, _, _ => trivial
  | .barrier _ _, _, _, _, _ => trivial
  | .probe _ _, _, _, _, _ => trivial
  | .custom _ _ _ _, _, _, _, _ => trivial

theorem liveNth_congr {φ ψ : Phases} : (l : List (Step Command)) → (σ : Site) → (n : Nat) →
    (p : Children l) → SameBelow σ φ ψ → liveNth l σ n p φ → liveNth l σ n p ψ
  | [], _, _, _, _, _ => trivial
  | s :: _, σ, 0, p, hs, h => Step.Live.congr s σ p.1 hs h
  | _ :: rest, σ, n + 1, p, hs, h => liveNth_congr rest σ n p.2 hs h

theorem liveLanes_congr {φ ψ : Phases} : (l : List (Step Command)) → (σ : Site) → (index : Nat) →
    (p : Lanes l) → (∀ τ, σ.From index τ → ψ τ = φ τ) → liveLanes l σ index p φ →
    liveLanes l σ index p ψ
  | [], _, _, _, _, _ => trivial
  | s :: rest, σ, index, p, hs, h => by
    have hlane : p.1.Live (s.Live (σ.child index)) (σ.child index) ψ :=
      h.1.congr (fun p => Step.Live.congr s _ p) fun τ hτ => hs τ (.of_child hτ)
    exact ⟨hlane, liveLanes_congr rest σ (index + 1) p.2 (fun τ hτ => hs τ hτ.of_succ) h.2⟩

end

end Sequencer
