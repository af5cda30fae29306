import Sequencer.Proofs.Lasting

/-!
# Phases and activations

Which calls a step may get next can be read off the calls it got so far. If every call and every
answer in a journal comes when it may, then the calls of each step are a series of activations,
one after the other.
-/

set_option autoImplicit false

namespace Sequencer

/-- Where in its life a step is, as far as its calls tell. -/
inductive Phase where
  | idle
  | entering
  /-- Entered, and in no call. -/
  | underway
  | ticking
  /-- Ticked to its end, and not exited yet. -/
  | settled
  | leaving
  deriving DecidableEq

def Entry.site? : Entry → Option Site
  | .called σ _ => some σ
  | .returned σ _ => some σ
  | _ => none

@[simp] theorem Entry.site?_notice (n : Notice) : (Entry.notice n).site? = none := rfl

def Call.phase : Call → Phase
  | .enter => .entering
  | .tick _ => .ticking
  | .exit => .leaving

namespace Phase

def ended (φ : Phase) : Option Status → Phase
  | some status => if status.isTerminal then .settled else .underway
  | none => if φ = .entering then .underway else .idle

def after (σ : Site) (e : Entry) (φ : Phase) : Phase :=
  match e with
  | .called τ c => if τ = σ then c.phase else φ
  | .returned τ r => if τ = σ then φ.ended r else φ
  | _ => φ

def of (σ : Site) (l : List Entry) : Phase := l.foldr (after σ) .idle

def IsQuiet (φ : Phase) : Prop := φ = .idle ∨ φ = .underway

variable {σ : Site}

@[simp] theorem of_called (c : Call) (l : List Entry) : of σ (.called σ c :: l) = c.phase :=
  if_pos rfl

@[simp] theorem of_returned (r : Option Status) (l : List Entry) :
    of σ (.returned σ r :: l) = (of σ l).ended r := if_pos rfl

theorem of_cons_ne {e : Entry} (h : e.site? ≠ some σ) (l : List Entry) :
    of σ (e :: l) = of σ l := by
  cases e with
  | called τ c => exact if_neg fun hτ => h (by rw [hτ]; rfl)
  | returned τ r => exact if_neg fun hτ => h (by rw [hτ]; rfl)
  | _ => rfl

theorem of_append {l : List Entry} (h : ∀ e ∈ l, e.site? ≠ some σ) (j : List Entry) :
    of σ (l ++ j) = of σ j := by
  induction l with
  | nil => rfl
  | cons e l ih =>
    rw [List.cons_append, of_cons_ne (h e List.mem_cons_self)]
    exact ih fun e' he' => h e' (List.mem_cons_of_mem _ he')

end Phase

def Step.child? {κ : Type} : Step κ → Nat → Option (Step κ)
  | .choose _ yes _, i => yes[i]?
  | .bounded _ _ steps, i => steps[i]?
  | .retry _ steps, i => steps[i]?
  | .group steps, i => steps[i]?
  | .parallel _ steps, i => steps[i]?
  | _, _ => none

def Step.otherwise? {κ : Type} : Step κ → Nat → Option (Step κ)
  | .choose _ _ no, i => no[i]?
  | _, _ => none

def Stage.step? (s : Stage) : Site → Option (Step Command)
  | .top id index => (s.sequence id).steps[index]?
  | .held _ => none
  | .child τ i => (s.step? τ).bind (·.child? i)
  | .otherwise τ i => (s.step? τ).bind (·.otherwise? i)

/-- A step that bounds the time of its children is ticked, its time has run over, and the child
at `σ` is the one it has under way. -/
def CutShort (steps : Site → Option (Step Command)) (σ : Site) (j : List Entry) : Prop :=
  ∃ τ i owner seconds policy children j', σ = .child τ i ∧
    steps τ = some (.bounded seconds policy children) ∧
    j = .notice (.timeoutHit owner seconds i) :: j' ∧ Phase.of τ j' = .ticking

def Entry.Allowed (steps : Site → Option (Step Command)) (e : Entry) (j : List Entry) : Prop :=
  match e with
  | .called σ .enter => (Phase.of σ j).IsQuiet
  | .called σ (.tick _) => Phase.of σ j = .underway
  | .called σ .exit => Phase.of σ j = .settled ∨ Phase.of σ j = .underway ∧ CutShort steps σ j
  | .returned σ none => Phase.of σ j = .entering ∨ Phase.of σ j = .leaving
  | .returned σ (some _) => Phase.of σ j = .ticking
  | _ => True

def Lawful (steps : Site → Option (Step Command)) (own : Site → Prop) :
    List Entry → List Entry → Prop
  | [], _ => True
  | e :: l, j => (∀ σ, e.site? = some σ → own σ → e.Allowed steps (l ++ j)) ∧ Lawful steps own l j

namespace Lawful

variable {steps steps' : Site → Option (Step Command)} {own own' : Site → Prop}
  {l l' j : List Entry}

theorem append (h : Lawful steps own l j) (h' : Lawful steps own l' (l ++ j)) :
    Lawful steps own (l' ++ l) j := by
  induction l' with
  | nil => exact h
  | cons e l' ih =>
    obtain ⟨he, hl⟩ := h'
    rw [← List.append_assoc] at he
    exact ⟨he, ih hl⟩

theorem of_append (h : Lawful steps own (l' ++ l) j) : Lawful steps own l j := by
  induction l' with
  | nil => exact h
  | cons e l' ih => exact ih h.2

theorem mono (h : Lawful steps own l j) (ho : ∀ σ, own' σ → own σ) :
    Lawful steps own' l j := by
  induction l with
  | nil => trivial
  | cons e l ih => exact ⟨fun σ hσ hown => h.1 σ hσ (ho σ hown), ih h.2⟩

theorem weaken (h : Lawful steps own l j) (hs : ∀ σ x, steps σ = some x → steps' σ = some x) :
    Lawful steps' own l j := by
  induction l with
  | nil => trivial
  | cons e l ih =>
    constructor
    · intro σ hσ hown
      have he := h.1 σ hσ hown
      cases e with
      | called τ c =>
        cases c with
        | exit =>
          rcases he with he | ⟨he, τ', i, owner, seconds, policy, children, j', hi, hτ, hj⟩
          · exact .inl he
          · exact .inr ⟨he, τ', i, owner, seconds, policy, children, j', hi, hs _ _ hτ, hj⟩
        | _ => exact he
      | returned τ r => cases r <;> exact he
      | _ => trivial
    · exact ih h.2

/-- What is lawful for some sites and for some others is so for both. -/
theorem union (h : Lawful steps own l j) (h' : Lawful steps own' l j) :
    Lawful steps (fun σ => own σ ∨ own' σ) l j := by
  induction l with
  | nil => trivial
  | cons e l ih => exact ⟨fun σ hσ hown => hown.elim (h.1 σ hσ) (h'.1 σ hσ), ih h.2 h'.2⟩

theorem of_silent (h : ∀ e ∈ l, ∀ σ, e.site? = some σ → ¬ own σ) : Lawful steps own l j := by
  induction l with
  | nil => trivial
  | cons e l ih =>
    constructor
    · exact fun σ hσ hown => absurd hown (h e List.mem_cons_self σ hσ)
    · apply ih
      exact fun e' he' => h e' (List.mem_cons_of_mem _ he')

theorem allowed {e : Entry} {σ : Site} (h : Lawful steps own (l' ++ e :: l) j)
    (hσ : e.site? = some σ) (hown : own σ) : e.Allowed steps (l ++ j) :=
  h.of_append.1 σ hσ hown

end Lawful

inductive Ending where
  /-- Not yet, or never because it was abandoned. -/
  | pending
  /-- With a frame that settled it, and its exit. -/
  | settled (dt : Float32) (status : Status) (terminal : status.isTerminal = true)
  /-- With an exit only. -/
  | cut

/-- A step is entered and ticked until it settles or is given up. -/
structure Activation where
  /-- The frames after which it ran on. -/
  frames : List Float32
  ending : Ending

namespace Activation

def entries (σ : Site) (a : Activation) : List Entry :=
  .called σ .enter :: .returned σ none ::
    a.frames.flatMap (fun dt => [.called σ (.tick dt), .returned σ (some .running)]) ++
    match a.ending with
    | .pending => []
    | .settled dt status _ =>
      [.called σ (.tick dt), .returned σ (some status), .called σ .exit, .returned σ none]
    | .cut => [.called σ .exit, .returned σ none]

variable {σ : Site}

theorem entries_ticked (frames : List Float32) (dt : Float32) :
    entries σ ⟨frames ++ [dt], .pending⟩ =
      entries σ ⟨frames, .pending⟩ ++ [.called σ (.tick dt), .returned σ (some .running)] := by
  simp [entries]

theorem entries_settled (frames : List Float32) (dt : Float32) (status : Status)
    (h : status.isTerminal = true) :
    entries σ ⟨frames, .settled dt status h⟩ = entries σ ⟨frames, .pending⟩ ++
      [.called σ (.tick dt), .returned σ (some status), .called σ .exit, .returned σ none] := by
  simp [entries]

theorem entries_cut (frames : List Float32) : entries σ ⟨frames, .cut⟩ =
    entries σ ⟨frames, .pending⟩ ++ [.called σ .exit, .returned σ none] := by
  simp [entries]

end Activation

def callsAt (σ : Site) (l : List Entry) : List Entry := l.filter (·.site? = some σ)

theorem callsAt_cons_ne {σ : Site} {e : Entry} (h : e.site? ≠ some σ) (l : List Entry) :
    callsAt σ (e :: l) = callsAt σ l := List.filter_cons_of_neg (by simpa using h)

theorem callsAt_cons_self {σ : Site} {e : Entry} (h : e.site? = some σ) (l : List Entry) :
    callsAt σ (e :: l) = e :: callsAt σ l := List.filter_cons_of_pos (by simpa using h)

namespace Phase

def Shape (σ : Site) (calls : List Entry) (φ : Phase) : Prop :=
  ∃ acts : List Activation,
    let past := acts.flatMap (Activation.entries σ)
    match φ with
    | .idle => calls = past
    | .entering => calls = past ++ [.called σ .enter]
    | .underway => ∃ frames, calls = past ++ Activation.entries σ ⟨frames, .pending⟩
    | .ticking => ∃ frames dt,
      calls = past ++ Activation.entries σ ⟨frames, .pending⟩ ++ [.called σ (.tick dt)]
    | .settled => ∃ frames dt status, status.isTerminal = true ∧
      calls = past ++ Activation.entries σ ⟨frames, .pending⟩ ++
        [.called σ (.tick dt), .returned σ (some status)]
    | .leaving => ∃ a : Activation, calls ++ [.returned σ none] = past ++ a.entries σ

variable {σ : Site} {calls : List Entry} {φ : Phase} {steps : Site → Option (Step Command)}
  {j : List Entry}

/-- Between calls the calls of a step are whole activations, of which the last may go on. -/
theorem Shape.whole (h : Shape σ calls φ) (hφ : φ.IsQuiet) :
    ∃ acts : List Activation, calls = acts.flatMap (Activation.entries σ) := by
  obtain ⟨acts, h⟩ := h
  rcases hφ with rfl | rfl
  · exact ⟨acts, h⟩
  · obtain ⟨frames, h⟩ := h
    refine ⟨acts ++ [⟨frames, .pending⟩], ?_⟩
    rw [List.flatMap_append, List.flatMap_singleton]
    exact h

theorem Shape.called (h : Shape σ calls (of σ j)) (c : Call)
    (ha : (Entry.called σ c).Allowed steps j) : Shape σ (calls ++ [.called σ c]) c.phase := by
  cases c with
  | enter =>
    obtain ⟨acts, hacts⟩ := h.whole ha
    exact ⟨acts, by rw [hacts]; rfl⟩
  | tick dt =>
    rw [show of σ j = .underway from ha] at h
    obtain ⟨acts, frames, hacts⟩ := h
    exact ⟨acts, frames, dt, by rw [hacts]⟩
  | exit =>
    rcases ha with ha | ⟨ha, -⟩
    · rw [ha] at h
      obtain ⟨acts, frames, dt, status, hs, hacts⟩ := h
      refine ⟨acts, ⟨frames, .settled dt status hs⟩, ?_⟩
      rw [hacts, Activation.entries_settled]
      simp
    · rw [ha] at h
      obtain ⟨acts, frames, hacts⟩ := h
      refine ⟨acts, ⟨frames, .cut⟩, ?_⟩
      rw [hacts, Activation.entries_cut]
      simp

theorem Shape.returned (h : Shape σ calls (of σ j)) (r : Option Status)
    (ha : (Entry.returned σ r).Allowed steps j) :
    Shape σ (calls ++ [.returned σ r]) ((of σ j).ended r) := by
  cases r with
  | some status =>
    rw [show of σ j = .ticking from ha] at h ⊢
    obtain ⟨acts, frames, dt, hacts⟩ := h
    cases status with
    | running =>
      refine ⟨acts, frames ++ [dt], ?_⟩
      rw [hacts, Activation.entries_ticked]
      simp
    | succeeded => exact ⟨acts, frames, dt, .succeeded, rfl, by rw [hacts]; simp⟩
    | failed => exact ⟨acts, frames, dt, .failed, rfl, by rw [hacts]; simp⟩
  | none =>
    rcases ha with ha | ha
    · rw [ha] at h ⊢
      obtain ⟨acts, hacts⟩ := h
      refine ⟨acts, [], ?_⟩
      rw [hacts]
      simp [Activation.entries]
    · rw [ha] at h ⊢
      obtain ⟨acts, a, hacts⟩ := h
      refine ⟨acts ++ [a], ?_⟩
      rw [hacts, List.flatMap_append, List.flatMap_singleton]
      rfl

/-- The calls of a step whose calls all came when they might have the shape of its phase. -/
theorem shape_of {own : Site → Prop} (hown : own σ) :
    (l : List Entry) → Lawful steps own l [] → Shape σ (callsAt σ l).reverse (of σ l)
  | [], _ => ⟨[], rfl⟩
  | e :: l, h => by
    have ih := shape_of hown l h.2
    by_cases hσ : e.site? = some σ
    · have ha := h.1 σ hσ hown
      rw [List.append_nil] at ha
      rw [callsAt_cons_self hσ, List.reverse_cons]
      cases e with
      | called τ c =>
        obtain rfl := Option.some.inj hσ
        rw [of_called]
        exact ih.called c ha
      | returned τ r =>
        obtain rfl := Option.some.inj hσ
        rw [of_returned]
        exact ih.returned r ha
      | _ => exact absurd hσ (by simp [Entry.site?])
    · rw [callsAt_cons_ne hσ, of_cons_ne hσ]
      exact ih

/-- The step has just answered that it is done. -/
theorem answered_of_settled (h : of σ j = .settled) :
    ∃ status, status.isTerminal = true ∧
      (callsAt σ j).head? = some (.returned σ (some status)) := by
  induction j with
  | nil => exact absurd h (by simp [of])
  | cons e j ih =>
    by_cases hσ : e.site? = some σ
    · rw [callsAt_cons_self hσ]
      cases e with
      | called τ c =>
        obtain rfl := Option.some.inj hσ
        rw [of_called] at h
        cases c <;> simp [Call.phase] at h
      | returned τ r =>
        obtain rfl := Option.some.inj hσ
        rw [of_returned] at h
        cases r with
        | none =>
          rw [ended] at h
          split at h <;> simp at h
        | some status =>
          refine ⟨status, ?_, rfl⟩
          rw [ended] at h
          split at h
          · assumption
          · simp at h
      | _ => exact absurd hσ (by simp [Entry.site?])
    · rw [of_cons_ne hσ] at h
      rw [callsAt_cons_ne hσ]
      exact ih h

end Phase

end Sequencer
