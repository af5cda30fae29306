import Sequencer.Proofs.Visits.Session

/-!
# Visits that come when they may

If nothing panics a step is entered, then ticked until it settles or is given up, and then exited
or entered again. So it was in no other call when a visit came, and every visit was answered.
-/

set_option autoImplicit false

namespace Sequencer

namespace Phase

def Admits (φ : Phase) : Call → Prop
  | .enter => φ.IsQuiet
  | .tick _ => φ = .underway
  | .exit => φ = .settled ∨ φ = .underway

def IsFree (φ : Phase) : Prop := φ.IsQuiet ∨ φ = .settled

theorem Admits.isFree {φ : Phase} {c : Call} (h : φ.Admits c) : φ.IsFree := by
  cases c with
  | enter => exact .inl h
  | tick dt => exact .inl (.inr h)
  | exit =>
    rcases h with h | h
    · exact .inr h
    · exact .inl (.inr h)

theorem not_isFree_called (c : Call) : ¬ c.phase.IsFree := by
  cases c <;> simp [IsFree, IsQuiet, Call.phase]

/-- Only the calls of the step itself matter. -/
theorem of_callsAt (σ : Site) (l : List Entry) : Phase.of σ (callsAt σ l) = Phase.of σ l := by
  induction l with
  | nil => rfl
  | cons e l ih =>
    by_cases hσ : e.site? = some σ
    · rw [callsAt_cons_self hσ]
      show after σ e (of σ (callsAt σ l)) = after σ e (of σ l)
      rw [ih]
    · rw [callsAt_cons_ne hσ, of_cons_ne hσ, ih]

end Phase

namespace Visit

variable {π : Type}

def phase : List (Visit π) → Phase
  | [] => .idle
  | v :: _ =>
    match v.answer with
    | .ok r => v.call.phase.ended r
    | .error _ => v.call.phase

def Orderly : List (Visit π) → Prop
  | [] => True
  | v :: visits => (phase visits).Admits v.call ∧ Orderly visits

theorem of_entries (σ : Site) (visits : List (Visit π)) :
    Phase.of σ (visits.flatMap (Visit.entries σ)) = phase visits := by
  cases visits with
  | nil => rfl
  | cons v visits =>
    rw [List.flatMap_cons, entries, phase]
    cases v.answer with
    | ok r =>
      show Phase.of σ (.returned σ r :: .called σ v.call :: visits.flatMap (Visit.entries σ)) = _
      rw [Phase.of_returned, Phase.of_called]
    | error e => exact Phase.of_called v.call _

/-- A visit that left the step in no call was answered. -/
theorem answered {v : Visit π} {visits : List (Visit π)} (h : (phase (v :: visits)).IsFree) :
    ∃ r, v.answer = .ok r ∧ phase (v :: visits) = v.call.phase.ended r := by
  cases hv : v.answer with
  | ok r => exact ⟨r, rfl, by simp only [phase, hv]⟩
  | error e =>
    simp only [phase, hv] at h
    exact absurd h (Phase.not_isFree_called v.call)

end Visit

namespace Lawful

variable {steps : Site → Option (Step Command)} {own : Site → Prop} {σ : Site} (hown : own σ)

include hown

/-- A call in a lawful journal came when the calls before admitted it. -/
theorem admits : (l : List Entry) → Lawful steps own l [] → {k j : List Entry} → {c : Call} →
    callsAt σ l = k ++ .called σ c :: j → (Phase.of σ j).Admits c
  | [], _, k, j, c, hk => absurd hk (by simp [callsAt])
  | e :: l, h, k, j, c, hk => by
    by_cases hσ : e.site? = some σ
    · rw [callsAt_cons_self hσ] at hk
      cases k with
      | nil =>
        obtain ⟨rfl, rfl⟩ := List.cons.inj hk
        have ha := h.1 σ hσ hown
        rw [List.append_nil] at ha
        rw [Phase.of_callsAt]
        cases c with
        | enter => exact ha
        | tick dt => exact ha
        | exit => exact ha.imp_right And.left
      | cons x k => exact admits l h.2 (List.cons.inj hk).2
    · rw [callsAt_cons_ne hσ] at hk
      exact admits l h.2 hk

theorem orderly {l : List Entry} (h : Lawful steps own l []) {π : Type} {k : List Entry}
    {visits : List (Visit π)} (hk : callsAt σ l = k ++ visits.flatMap (Visit.entries σ)) :
    Visit.Orderly visits := by
  induction visits generalizing k with
  | nil => trivial
  | cons v visits ih =>
    rw [List.flatMap_cons] at hk
    obtain ⟨k', hv⟩ : ∃ k', v.entries σ = k' ++ [.called σ v.call] := by
      rw [Visit.entries]
      cases v.answer with
      | ok r => exact ⟨[.returned σ r], rfl⟩
      | error e => exact ⟨[], rfl⟩
    rw [hv] at hk
    constructor
    · rw [← Visit.of_entries σ]
      apply admits hown l h (k := k ++ k')
      simp [hk]
    · apply ih (k := k ++ k' ++ [.called σ v.call])
      simp [hk]

end Lawful

/-- If nothing panics the visits of a step of a sequence came when they might, and between commands
of the host it is in no call. -/
theorem Session.orderly {settings : Settings} {host : Host} {s : Stage}
    (h : Session true (.opening settings host) s) {σ : Site} {id : Nat} (hσ : σ.root = some id)
    {π : Type} {visits : List (Visit π)}
    (hv : callsAt σ s.journal = visits.flatMap (Visit.entries σ)) :
    Visit.Orderly visits ∧ (Visit.phase visits).IsQuiet := by
  constructor
  · exact Lawful.orderly (k := []) ⟨id, hσ⟩ h.lawful hv
  · have hregular := h.leads.course.regular rfl (Stage.opening_sound settings host)
      (Stage.opening_orderly settings host) nofun
    have hquiet := (hregular.orderly id (h.resting id)).quiet σ
    rwa [phases_root hσ, ← Phase.of_callsAt, hv, Visit.of_entries] at hquiet

end Sequencer
