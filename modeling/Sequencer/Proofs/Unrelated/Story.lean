import Sequencer.Proofs.Accord

/-!
# The story of a name

Sequences of one name may be registered one after the other. Their story is what the journal tells of
them: every call of their steps and every answer, every question they ask, their callbacks, their
turns and every move of their cursors. In the story a sequence is known by how many of its name came
before it, so that the story does not tell how many other sequences there are.
-/

set_option autoImplicit false

namespace Sequencer

def Site.retold (ids : List Nat) : Site → Option Site
  | .top id n => (ids.idxOf? id).map (.top · n)
  | .held _ => none
  | .child σ n => (σ.retold ids).map (.child · n)
  | .otherwise σ n => (σ.retold ids).map (.otherwise · n)

def Asker.retold (ids : List Nat) : Asker → Option Asker
  | .step σ => (σ.retold ids).map .step
  | .guard id => (ids.idxOf? id).map .guard
  | .validator id n => (ids.idxOf? id).map (.validator · n)

def Entry.retold (name : String) (ids : List Nat) : Entry → Option Entry
  | .probeEntered id owner => if owner = name then some (.probeEntered id owner) else none
  | .probeTicked id owner dt status =>
    if owner = name then some (.probeTicked id owner dt status) else none
  | .probeExited id owner => if owner = name then some (.probeExited id owner) else none
  | .polled asker id answer => (asker.retold ids).map (.polled · id answer)
  | .notified id name hook isSet => (ids.idxOf? id).map (.notified · name hook isSet)
  | .called σ call => (σ.retold ids).map (.called · call)
  | .returned σ status => (σ.retold ids).map (.returned · status)
  | .turn id how => (ids.idxOf? id).map (.turn · how)
  | .drove id status => (ids.idxOf? id).map (.drove · status)
  | .began id => (ids.idxOf? id).map .began
  | .restored id wasRunning => (ids.idxOf? id).map (.restored · wasRunning)
  | .moved id move cursor => (ids.idxOf? id).map (.moved · move cursor)
  | .dropped id running => (ids.idxOf? id).map (.dropped · running)
  | _ => none

namespace Stage

def incarnations (name : String) (s : Stage) : List Nat :=
  (List.range s.sequences.length).filter fun id => (s.sequence id).name = name

def story (name : String) (s : Stage) : List Entry :=
  s.journal.filterMap (·.retold name (s.incarnations name))

variable {name : String} {s : Stage} {i j n : Nat}

theorem mem_incarnations :
    i ∈ s.incarnations name ↔ i < s.sequences.length ∧ (s.sequence i).name = name := by
  simp [incarnations]

theorem nodup_incarnations (name : String) (s : Stage) : (s.incarnations name).Nodup :=
  List.nodup_range.filter _

theorem incarnations_congr {t : Stage} (hl : t.sequences.length = s.sequences.length)
    (hn : ∀ i, (t.sequence i).name = name ↔ (s.sequence i).name = name) :
    t.incarnations name = s.incarnations name := by
  simp only [incarnations, hl]
  apply List.filter_congr
  intro i _
  simp only [hn i]

theorem incarnations_modify {f : Sequence → Sequence}
    (hf : (f (s.sequence i)).name = name ↔ (s.sequence i).name = name) :
    (s.modify i f).incarnations name = s.incarnations name := by
  refine incarnations_congr (s.length_modify i f) fun j => ?_
  rcases s.sequence_modify_cases i j f with ⟨rfl, -, h⟩ | ⟨-, h⟩
  · rw [h]
    exact hf
  · rw [h]

theorem incarnations_enroll (q : Sequence) : (s.enroll q).incarnations name =
    if q.name = name then s.incarnations name ++ [s.sequences.length]
    else s.incarnations name := by
  have hbefore : ∀ i ∈ List.range s.sequences.length,
      decide (((s.enroll q).sequence i).name = name) = decide ((s.sequence i).name = name) := by
    intro i hi
    have hi := List.mem_range.mp hi
    rw [sequence_enroll, if_neg (by omega)]
  have hold : (List.range s.sequences.length).filter
      (fun i => ((s.enroll q).sequence i).name = name) = s.incarnations name :=
    List.filter_congr hbefore
  rw [incarnations, length_enroll, List.range_succ, List.filter_append, hold]
  by_cases hq : q.name = name <;> simp [sequence_enroll, hq]

/-- All sequences that there are bear the name. -/
theorem incarnations_all (h : ∀ i < s.sequences.length, (s.sequence i).name = name) :
    s.incarnations name = List.range s.sequences.length := by
  refine List.filter_eq_self.mpr fun i hi => ?_
  simpa using h i (List.mem_range.mp hi)

end Stage

section

variable {ids : List Nat} {i j n : Nat}

theorem idxOf?_of_getElem? (hn : ids.Nodup) (h : ids[j]? = some i) : ids.idxOf? i = some j := by
  obtain ⟨hj, hi⟩ := List.getElem?_eq_some_iff.mp h
  refine List.idxOf?_eq_some_iff.mpr ⟨hj, hi, fun k hk heq => ?_⟩
  exact List.pairwise_iff_getElem.mp hn k j (by omega) hj hk (heq.trans hi.symm)

theorem getElem?_of_idxOf? (h : ids.idxOf? i = some j) : ids[j]? = some i := by
  obtain ⟨hj, hi, -⟩ := List.idxOf?_eq_some_iff.mp h
  exact List.getElem?_eq_some_iff.mpr ⟨hj, hi⟩

theorem idxOf?_append_ne (h : i ≠ n) : (ids ++ [n]).idxOf? i = ids.idxOf? i := by
  induction ids with
  | nil => simp [List.idxOf?_cons, Ne.symm h]
  | cons k rest ih => simp [List.idxOf?_cons, ih]

end

def Asker.about? : Asker → Option Nat
  | .step σ => σ.root
  | .guard id => some id
  | .validator id _ => some id

def Entry.about? : Entry → Option Nat
  | .polled asker _ _ => asker.about?
  | .notified id _ _ _ => some id
  | .called σ _ => σ.root
  | .returned σ _ => σ.root
  | .turn id _ => some id
  | .drove id _ => some id
  | .began id => some id
  | .restored id _ => some id
  | .moved id _ _ => some id
  | .dropped id _ => some id
  | _ => none

section

variable {name : String} {ids ids' : List Nat} {e e' : Entry}

theorem Site.retold_congr (σ : Site) (h : ∀ i, σ.root = some i → ids'.idxOf? i = ids.idxOf? i) :
    σ.retold ids' = σ.retold ids := by
  induction σ with
  | top id n => simp only [Site.retold, h id rfl]
  | held slot => rfl
  | child σ n ih => simp only [Site.retold, ih h]
  | otherwise σ n ih => simp only [Site.retold, ih h]

/-- An entry is retold the same as long as its own sequence has the same place. -/
theorem Entry.retold_congr (h : ∀ i, e.about? = some i → ids'.idxOf? i = ids.idxOf? i) :
    e.retold name ids' = e.retold name ids := by
  cases e with
  | called σ call => simp only [Entry.retold, σ.retold_congr h]
  | returned σ status => simp only [Entry.retold, σ.retold_congr h]
  | polled asker id answer =>
    cases asker with
    | step σ => simp only [Entry.retold, Asker.retold, σ.retold_congr h]
    | guard i => simp only [Entry.retold, Asker.retold, h i rfl]
    | validator i n => simp only [Entry.retold, Asker.retold, h i rfl]
  | notified i _ _ _ => simp only [Entry.retold, h i rfl]
  | turn i _ => simp only [Entry.retold, h i rfl]
  | drove i _ => simp only [Entry.retold, h i rfl]
  | began i => simp only [Entry.retold, h i rfl]
  | restored i _ => simp only [Entry.retold, h i rfl]
  | moved i _ _ => simp only [Entry.retold, h i rfl]
  | dropped i _ => simp only [Entry.retold, h i rfl]
  | _ => rfl

variable {mate : Nat → Nat → Prop} {named : String → Prop}

theorem Site.Mates.retold {σ τ : Site} (h : Site.Mates mate σ τ)
    (hm : ∀ i j, mate i j → ids'.idxOf? j = ids.idxOf? i) : τ.retold ids' = σ.retold ids := by
  induction h with
  | top n h => simp only [Site.retold, hm _ _ h]
  | held slot => rfl
  | child n _ ih => simp only [Site.retold, ih]
  | otherwise n _ ih => simp only [Site.retold, ih]

theorem Asker.Mates.retold {a b : Asker} (h : Asker.Mates mate a b)
    (hm : ∀ i j, mate i j → ids'.idxOf? j = ids.idxOf? i) : b.retold ids' = a.retold ids := by
  cases h with
  | step h => simp only [Asker.retold, h.retold hm]
  | guard h => simp only [Asker.retold, hm _ _ h]
  | validator n h => simp only [Asker.retold, hm _ _ h]

/-- What is told of mates that have the same place is retold the same. -/
theorem Entry.Mates.retold (h : Entry.Mates named mate e e')
    (hm : ∀ i j, mate i j → ids'.idxOf? j = ids.idxOf? i) :
    e'.retold name ids' = e.retold name ids := by
  cases h with
  | bare h => cases e <;> first | rfl | cases h
  | probeEntered _ _ => rfl
  | probeTicked _ _ _ _ => rfl
  | probeExited _ _ => rfl
  | polled _ _ h => simp only [Entry.retold, h.retold hm]
  | called _ h => simp only [Entry.retold, h.retold hm]
  | returned _ h => simp only [Entry.retold, h.retold hm]
  | notified _ _ _ h => simp only [Entry.retold, hm _ _ h]
  | turn _ h => simp only [Entry.retold, hm _ _ h]
  | drove _ h => simp only [Entry.retold, hm _ _ h]
  | began h => simp only [Entry.retold, hm _ _ h]
  | restored _ h => simp only [Entry.retold, hm _ _ h]
  | moved _ _ h => simp only [Entry.retold, hm _ _ h]
  | dropped _ h => simp only [Entry.retold, hm _ _ h]

theorem Site.Mates.root {σ τ : Site} (h : Site.Mates mate σ τ) :
    Option.Rel mate σ.root τ.root := by
  induction h with
  | top n h => exact .some h
  | held slot => exact .none
  | child n _ ih => exact ih
  | otherwise n _ ih => exact ih

/-- They are about mates, if they are about sequences. -/
theorem Entry.Mates.about? (h : Entry.Mates named mate e e') :
    Option.Rel mate e.about? e'.about? := by
  cases h with
  | bare h => cases e <;> first | exact .none | cases h
  | polled _ _ h =>
    cases h with
    | step h => exact h.root
    | guard h => exact .some h
    | validator n h => exact .some h
  | called _ h => exact h.root
  | returned _ h => exact h.root
  | probeEntered _ _ => exact .none
  | probeTicked _ _ _ _ => exact .none
  | probeExited _ _ => exact .none
  | notified _ _ _ h => exact .some h
  | turn _ h => exact .some h
  | drove _ h => exact .some h
  | began h => exact .some h
  | restored _ h => exact .some h
  | moved _ _ h => exact .some h
  | dropped _ h => exact .some h

/-- What is told of sequences that have no place is not retold. -/
theorem Entry.Mates.untold (h : Entry.Mates named mate e e') (hn : ∀ owner, named owner → owner ≠ name)
    (hm : ∀ i j, mate i j → ids.idxOf? j = none) : e'.retold name ids = none := by
  have hsite : ∀ {σ τ : Site}, Site.Mates mate σ τ → τ.retold ids = none := by
    intro σ τ h
    induction h with
    | top n h => simp only [Site.retold, hm _ _ h, Option.map_none]
    | held slot => rfl
    | child n _ ih => simp only [Site.retold, ih, Option.map_none]
    | otherwise n _ ih => simp only [Site.retold, ih, Option.map_none]
  cases h with
  | bare h => cases e <;> first | rfl | cases h
  | probeEntered _ h => exact if_neg (hn _ h)
  | probeTicked _ _ _ h => exact if_neg (hn _ h)
  | probeExited _ h => exact if_neg (hn _ h)
  | polled _ _ h =>
    cases h with
    | step h => simp only [Entry.retold, Asker.retold, hsite h, Option.map_none]
    | guard h => simp only [Entry.retold, Asker.retold, hm _ _ h, Option.map_none]
    | validator n h => simp only [Entry.retold, Asker.retold, hm _ _ h, Option.map_none]
  | called _ h => simp only [Entry.retold, hsite h, Option.map_none]
  | returned _ h => simp only [Entry.retold, hsite h, Option.map_none]
  | notified _ _ _ h => simp only [Entry.retold, hm _ _ h, Option.map_none]
  | turn _ h => simp only [Entry.retold, hm _ _ h, Option.map_none]
  | drove _ h => simp only [Entry.retold, hm _ _ h, Option.map_none]
  | began h => simp only [Entry.retold, hm _ _ h, Option.map_none]
  | restored _ h => simp only [Entry.retold, hm _ _ h, Option.map_none]
  | moved _ _ h => simp only [Entry.retold, hm _ _ h, Option.map_none]
  | dropped _ h => simp only [Entry.retold, hm _ _ h, Option.map_none]

end

end Sequencer
