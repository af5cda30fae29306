import Mathlib
import Sequencer.Status

/-!
# When an activation settles, and how

The arithmetic of composite steps. A list takes the frames of its children one after the other, a
retried list those of all its passes, and a parallel step those of the child that decides it.
-/

set_option autoImplicit false

namespace Sequencer

/-- In which frame after it was entered a step settles, counted from one, and whether well. -/
structure Timing where
  ticks : Nat
  ok : Bool
  deriving DecidableEq

def Status.due (ok : Bool) (n : Nat) : Status := if n = 0 then .ofOutcome ok else .running

@[simp] theorem Status.due_zero (ok : Bool) : Status.due ok 0 = .ofOutcome ok := rfl

theorem Status.due_pos (ok : Bool) {n : Nat} (h : 0 < n) : Status.due ok n = .running :=
  if_neg (by omega)

theorem Status.isTerminal_due (ok : Bool) (n : Nat) :
    (Status.due ok n).isTerminal = decide (n = 0) := by
  cases n with
  | zero => exact Status.isTerminal_ofOutcome ok
  | succ n => rfl

def OnFailure.stops (onFailure : OnFailure) (d : Timing) : Bool :=
  !d.ok && onFailure = .propagate

namespace Timing

def span (onFailure : OnFailure) : List Timing → Nat
  | [] => 0
  | d :: rest => d.ticks + if onFailure.stops d then 0 else span onFailure rest

def list (onFailure : OnFailure) (ds : List Timing) : Timing :=
  if ds.isEmpty then ⟨1, true⟩
  else ⟨span onFailure ds, !ds.any onFailure.stops⟩

def group : List Timing → Timing := list .propagate

def choice : List Timing → Timing := list .advance

def retry (attempts : Nat) (ds : List Timing) : Timing :=
  if (group ds).ok then group ds else ⟨max attempts 1 * (group ds).ticks, false⟩

end Timing

def Quorum.decisive : Quorum → Bool
  | .all => false
  | .any => true

namespace Timing

def latest (ds : List Timing) : Nat := (ds.map (·.ticks)).foldr max 1

def earliest (ok : Bool) (ds : List Timing) : Option Nat :=
  ((ds.filter (·.ok = ok)).map (·.ticks)).min?

def parallel (mode : Quorum) (ds : List Timing) : Timing :=
  match earliest mode.decisive ds with
  | some n => ⟨n, mode.decisive⟩
  | none => ⟨latest ds, !mode.decisive⟩

def AllPositive (ds : List Timing) : Prop := ∀ d ∈ ds, 0 < d.ticks

variable {onFailure : OnFailure} {ds : List Timing} {d : Timing} {rest : List Timing}

theorem list_cons (onFailure : OnFailure) (d : Timing) (rest : List Timing) :
    list onFailure (d :: rest) = ⟨span onFailure (d :: rest), !(d :: rest).any onFailure.stops⟩ :=
  rfl

/-- Choices and sequences take the frames of all their children. -/
theorem span_advance (ds : List Timing) : span .advance ds = (ds.map (·.ticks)).sum := by
  induction ds with
  | nil => rfl
  | cons d rest ih => simp [span, OnFailure.stops, ih]

theorem span_pos (h : AllPositive ds) (hne : ds ≠ []) : 0 < span onFailure ds := by
  cases ds with
  | nil => exact absurd rfl hne
  | cons d rest =>
    have hd : 0 < d.ticks := h d List.mem_cons_self
    simp only [span]
    omega

theorem list_pos (h : AllPositive ds) : 0 < (list onFailure ds).ticks := by
  cases ds with
  | nil => exact Nat.one_pos
  | cons d rest => exact span_pos h (List.cons_ne_nil d rest)

theorem retry_pos (attempts : Nat) (h : AllPositive ds) : 0 < (retry attempts ds).ticks := by
  have hg : 0 < (group ds).ticks := list_pos h
  unfold retry
  split
  · exact hg
  · exact Nat.mul_pos (by omega) hg

def frame (onFailure : OnFailure) : List Timing → Status × List Timing
  | [] => (.succeeded, [])
  | d :: rest =>
    if 1 < d.ticks then (.running, ⟨d.ticks - 1, d.ok⟩ :: rest)
    else (if onFailure.stops d then .failed else if rest.isEmpty then .succeeded else .running, rest)

theorem frame_long (h : 1 < d.ticks) :
    frame onFailure (d :: rest) = (.running, ⟨d.ticks - 1, d.ok⟩ :: rest) := if_pos h

theorem frame_short (h : ¬ 1 < d.ticks) : frame onFailure (d :: rest) =
    (if onFailure.stops d then .failed else if rest.isEmpty then .succeeded else .running, rest) :=
  if_neg h

/-- A frame brings a list one frame nearer to its end. -/
theorem frame_spec (h : AllPositive ds) {n : Nat} (hn : (list onFailure ds).ticks = n + 1) :
    (frame onFailure ds).1 = .due (list onFailure ds).ok n ∧
      (0 < n → list onFailure (frame onFailure ds).2 = ⟨n, (list onFailure ds).ok⟩) := by
  cases ds with
  | nil =>
    obtain rfl : n = 0 := by simpa [list] using hn
    exact ⟨rfl, fun h => absurd h (by omega)⟩
  | cons d rest =>
    have hd : 0 < d.ticks := h d List.mem_cons_self
    rw [list_cons] at hn ⊢
    by_cases hlong : 1 < d.ticks
    · have hstops : onFailure.stops ⟨d.ticks - 1, d.ok⟩ = onFailure.stops d := rfl
      have hpos : 0 < n := by
        simp only [span] at hn
        omega
      simp only [frame_long hlong, Status.due_pos _ hpos, true_and]
      intro _
      rw [list_cons]
      simp only [span, List.any_cons, hstops] at hn ⊢
      congr 1
      omega
    · have hone : d.ticks = 1 := by omega
      simp only [frame_short hlong]
      cases hstops : onFailure.stops d with
      | true =>
        obtain rfl : n = 0 := by
          simp only [span, hstops, if_true] at hn
          omega
        simp [hstops, Status.ofOutcome]
      | false =>
        have hspan : span onFailure rest = n := by
          simp only [span, hstops] at hn
          simp only [Bool.false_eq_true, if_false] at hn
          omega
        cases rest with
        | nil =>
          obtain rfl : n = 0 := by simpa [span] using hspan.symm
          simp [hstops, Status.ofOutcome]
        | cons d' rest =>
          have hpos : 0 < n := by
            rw [← hspan]
            exact span_pos (fun x hx => h x (List.mem_cons_of_mem _ hx)) (List.cons_ne_nil _ _)
          simp [hstops, Status.due_pos _ hpos, list_cons, hspan]

theorem earliest_eq_some {ok : Bool} {n : Nat} (h : earliest ok ds = some n) :
    (∃ d ∈ ds, d.ok = ok ∧ d.ticks = n) ∧ ∀ d ∈ ds, d.ok = ok → n ≤ d.ticks := by
  unfold earliest at h
  rw [List.min?_eq_some_iff] at h
  obtain ⟨hmem, hle⟩ := h
  constructor
  · obtain ⟨d, hd, rfl⟩ := List.mem_map.mp hmem
    obtain ⟨hd, hok⟩ := List.mem_filter.mp hd
    exact ⟨d, hd, by simpa using hok, rfl⟩
  · intro d hd hok
    exact hle _ (List.mem_map.mpr ⟨d, List.mem_filter.mpr ⟨hd, by simpa using hok⟩, rfl⟩)

theorem earliest_eq_none {ok : Bool} (h : earliest ok ds = none) : ∀ d ∈ ds, d.ok = !ok := by
  intro d hd
  unfold earliest at h
  rw [List.min?_eq_none_iff, List.map_eq_nil_iff] at h
  have hne := List.filter_eq_nil_iff.mp h d hd
  revert hne
  cases d.ok <;> cases ok <;> simp

theorem le_latest (hd : d ∈ ds) : d.ticks ≤ latest ds := by
  induction ds with
  | nil => exact absurd hd List.not_mem_nil
  | cons e rest ih =>
    simp only [latest, List.map_cons, List.foldr_cons] at ih ⊢
    rcases List.mem_cons.mp hd with rfl | hd
    · omega
    · have := ih hd
      omega

theorem latest_pos (ds : List Timing) : 0 < latest ds := by
  induction ds with
  | nil => exact Nat.one_pos
  | cons e rest ih =>
    simp only [latest, List.map_cons, List.foldr_cons] at ih ⊢
    omega

/-- Unless it is the first frame, the last frame is that of a child. -/
theorem latest_cases (ds : List Timing) : latest ds = 1 ∨ ∃ d ∈ ds, d.ticks = latest ds := by
  induction ds with
  | nil => exact .inl rfl
  | cons e rest ih =>
    by_cases he : latest rest ≤ e.ticks
    · refine .inr ⟨e, List.mem_cons_self, ?_⟩
      exact (Nat.max_eq_left he).symm
    · have hle : e.ticks ≤ latest rest := by omega
      have heq : latest (e :: rest) = latest rest := Nat.max_eq_right hle
      rw [heq]
      rcases ih with h | ⟨d, hd, h⟩
      · exact .inl h
      · exact .inr ⟨d, List.mem_cons_of_mem e hd, h⟩

theorem parallel_pos (mode : Quorum) (h : AllPositive ds) : 0 < (parallel mode ds).ticks := by
  unfold parallel
  split
  · next n hn =>
    obtain ⟨⟨d, hd, -, rfl⟩, -⟩ := earliest_eq_some hn
    exact h d hd
  · exact latest_pos ds

end Timing

end Sequencer
