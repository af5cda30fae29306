import Sequencer.Proofs.Likeness.Steps

/-!
# Sequences in disguise

One sequence of a stage is given another look, and what is noted of its steps is told in other
words. As long as it runs or not and is paused or not as before, the stage in disguise is like the
stage itself. So a step does there what it does here, if the user code in it neither changes the
sequence nor sees through the disguise.
-/

set_option autoImplicit false

namespace Sequencer

structure Elsewhere (id : Nat) (s t : Stage) : Prop where
  settings : t.settings = s.settings
  registry : t.registry = s.registry
  held : t.held = s.held
  length : t.sequences.length = s.sequences.length
  others : ∀ i, i ≠ id → t.sequence i = s.sequence i
  name : (t.sequence id).name = (s.sequence id).name
  active : ∀ i, i ≠ id → (i ∈ t.active ↔ i ∈ s.active)

/-- Worlds in which a sequence may get its turns: what the sequence does by itself does not lead
out of them. -/
structure Milieu (id : Nat) (name : String) where
  world : Stage → Prop
  placed : ∀ s, world s → id < s.sequences.length
  named : ∀ s, world s → (s.sequence id).name = name
  elsewhere : ∀ s t, world s → Elsewhere id s t → world t

def Milieu.anywhere (id : Nat) (name : String) : Milieu id name where
  world s := id < s.sequences.length ∧ (s.sequence id).name = name
  placed _ hs := hs.1
  named _ hs := hs.2
  elsewhere s t hs he := by
    refine ⟨?_, he.name.trans hs.2⟩
    rw [he.length]
    exact hs.1

namespace Elsewhere

variable (id : Nat) (s : Stage)

theorem note (e : Entry) : Elsewhere id s (s.note e) :=
  ⟨rfl, rfl, rfl, rfl, fun _ _ => rfl, rfl, fun _ _ => .rfl⟩

theorem host (h : Host) : Elsewhere id s { s with host := h } :=
  ⟨rfl, rfl, rfl, rfl, fun _ _ => rfl, rfl, fun _ _ => .rfl⟩

theorem arrive (barrier : String) : Elsewhere id s (s.arrive barrier) :=
  ⟨rfl, rfl, rfl, rfl, fun _ _ => rfl, rfl, fun _ _ => .rfl⟩

variable {id} in
theorem modify {f : Sequence → Sequence} (hf : (f (s.sequence id)).name = (s.sequence id).name) :
    Elsewhere id s (s.modify id f) := by
  refine ⟨rfl, rfl, rfl, s.length_modify id f, fun i hi => s.sequence_modify_ne f hi, ?_,
    fun _ _ => .rfl⟩
  rcases s.sequence_modify_cases id id f with ⟨-, -, h⟩ | ⟨-, h⟩
  · rw [h, hf]
  · rw [h]

end Elsewhere

structure Sequence.Resembles (v q : Sequence) : Prop where
  name : v.name = q.name
  running : v.running = q.running
  paused : v.paused = q.paused

structure Disguise (id : Nat) where
  look : Sequence → Sequence
  site : Site → Site
  entry : Entry → Entry
  child : ∀ σ i, site (.child σ i) = .child (site σ) i
  otherwise : ∀ σ i, site (.otherwise σ i) = .otherwise (site σ) i
  common : ∀ e : Entry, e.isCommon = true → entry e = e
  polled : ∀ σ c answer, entry (.polled (.step σ) c answer) = .polled (.step (site σ)) c answer
  called : ∀ σ c, entry (.called σ c) = .called (site σ) c
  returned : ∀ σ r, entry (.returned σ r) = .returned (site σ) r

def Stage.masked {id : Nat} (D : Disguise id) (j : List Entry) (s : Stage) : Stage :=
  { s.modify id D.look with journal := j }

namespace Stage

variable {id : Nat} (D : Disguise id) (j : List Entry) {s : Stage}

theorem field_masked {α : Type} (g : Sequence → α)
    (h : g (D.look (s.sequence id)) = g (s.sequence id)) (i : Nat) :
    g ((s.masked D j).sequence i) = g (s.sequence i) := by
  have hmodify : (s.masked D j).sequence i = (s.modify id D.look).sequence i := rfl
  rw [hmodify]
  rcases s.sequence_modify_cases id i D.look with ⟨rfl, -, hq⟩ | ⟨-, hq⟩
  · rw [hq, h]
  · rw [hq]

theorem isRunning_masked (h : (D.look (s.sequence id)).Resembles (s.sequence id)) (name : String) :
    (s.masked D j).isRunning name = s.isRunning name := by
  have hq := s.field_masked D j (·.running) h.running
  simp only [isRunning, named?, Option.map_map, Function.comp_def, hq]
  rfl

theorem isPaused_masked (h : (D.look (s.sequence id)).Resembles (s.sequence id)) (name : String) :
    (s.masked D j).isPaused name = s.isPaused name := by
  have hq := s.field_masked D j (·.paused) h.paused
  simp only [isPaused, named?, Option.map_map, Function.comp_def, hq]
  rfl

end Stage

section

variable {id : Nat} {name : String} (D : Disguise id) (M : Milieu id name)

def Disguise.Related (q : Sequence) (j₀ j : List Entry) (s t : Stage) : Prop :=
  M.world s ∧ s.sequence id = q ∧ ∃ l, s.journal = l ++ j₀ ∧ t = s.masked D (l.map D.entry ++ j)

variable {D M} in
theorem Disguise.Related.note {q : Sequence} {j₀ j : List Entry} {s t : Stage}
    (h : D.Related M q j₀ j s t) {e e' : Entry} (he : D.entry e = e') :
    D.Related M q j₀ j (s.note e) (t.note e') := by
  obtain ⟨hs, hsame, l, hl, rfl⟩ := h
  subst he
  exact ⟨M.elsewhere s _ hs (.note id s e), hsame, e :: l, congrArg (e :: ·) hl, rfl⟩

def Disguise.likeness {q : Sequence} (hq : (D.look q).Resembles q) (j₀ j : List Entry) :
    Likeness where
  related := D.Related M q j₀ j
  own _ := True
  site := D.site
  child σ i _ := ⟨trivial, D.child σ i⟩
  otherwise σ i _ := ⟨trivial, D.otherwise σ i⟩
  settings := by
    rintro s t ⟨-, -, l, -, rfl⟩
    rfl
  barriers := by
    rintro s t ⟨-, -, l, -, rfl⟩
    rfl
  host := by
    rintro s t ⟨-, -, l, -, rfl⟩
    rfl
  running := by
    rintro s t ⟨-, rfl, l, -, rfl⟩ name
    exact s.isRunning_masked D _ hq name
  paused := by
    rintro s t ⟨-, rfl, l, -, rfl⟩ name
    exact s.isPaused_masked D _ hq name
  note h he := h.note (D.common _ he)
  polled c answer h _ := h.note (D.polled _ c answer)
  called c h _ := h.note (D.called _ c)
  returned r h _ := h.note (D.returned _ r)
  hosting := by
    rintro s t h ⟨hs, hsame, l, hl, rfl⟩
    exact ⟨M.elsewhere s _ hs (.host id s h), hsame, l, hl, rfl⟩
  arrive := by
    rintro s t barrier ⟨hs, hsame, l, hl, rfl⟩
    have harrived : D.entry (.arrived barrier) = .arrived barrier := D.common _ rfl
    refine ⟨M.elsewhere s _ hs (.arrive id s barrier), hsame, .arrived barrier :: l,
      congrArg (_ :: ·) hl, ?_⟩
    rw [List.map_cons, harrived]
    rfl

def Act.Masks {α : Type} (x y : Act α) : Prop :=
  ∀ s, M.world s → (D.look (s.sequence id)).Resembles (s.sequence id) →
    ∃ l, (x s).2.journal = l ++ s.journal ∧ M.world (x s).2 ∧ (x s).2.sequence id = s.sequence id ∧
      ∀ j, y (s.masked D j) = ((x s).1, (x s).2.masked D (l.map D.entry ++ j))

variable {D M}

/-- What masks does alike. -/
theorem Act.Masks.alike {α : Type} {x y : Act α} (h : Act.Masks D M x y) {q : Sequence}
    (hq : (D.look q).Resembles q) (j₀ j : List Entry) :
    Act.Alike (D.likeness M hq j₀ j) x y := by
  rintro s _ ⟨hs, rfl, l, hl, rfl⟩
  obtain ⟨l', hl', hs', hkept, hy⟩ := h s hs hq
  rw [hy]
  refine ⟨rfl, hs', hkept, l' ++ l, ?_, ?_⟩
  · rw [hl', hl, List.append_assoc]
  · rw [List.map_append, List.append_assoc]

/-- What does alike on whatever journal masks. -/
theorem Act.Masks.of_alike {α : Type} {x y : Act α}
    (h : ∀ (q : Sequence) (hq : (D.look q).Resembles q) (j₀ j : List Entry),
      Act.Alike (D.likeness M hq j₀ j) x y) : Act.Masks D M x y := by
  intro s hs hq
  have hrelated : ∀ j, (D.likeness M hq s.journal j).related s (s.masked D j) :=
    fun j => ⟨hs, rfl, [], rfl, rfl⟩
  obtain ⟨-, hs', hkept, l, hl, -⟩ := h _ hq s.journal [] s _ (hrelated [])
  refine ⟨l, hl, hs', hkept, fun j => ?_⟩
  obtain ⟨hr, -, -, l', hl', ht⟩ := h _ hq s.journal j s _ (hrelated j)
  obtain rfl : l' = l := List.append_cancel_right (hl'.symm.trans hl)
  exact Prod.ext hr ht

/-- A play that does alike on whatever journal, on the stage in disguise. -/
theorem Play.Alike.masked {π α : Type} {x y : Play π α} {s : Stage} (hs : M.world s)
    (hq : (D.look (s.sequence id)).Resembles (s.sequence id))
    (h : ∀ j₀ j : List Entry, Play.Alike (D.likeness M hq j₀ j) x y) (p : π) :
    ∃ l, (x (p, s)).2.2.journal = l ++ s.journal ∧ M.world (x (p, s)).2.2 ∧
      (x (p, s)).2.2.sequence id = s.sequence id ∧
      ∀ j, y (p, s.masked D j) = ((x (p, s)).1, (x (p, s)).2.1,
        (x (p, s)).2.2.masked D (l.map D.entry ++ j)) := by
  have hrelated : ∀ j, (D.likeness M hq s.journal j).related s (s.masked D j) :=
    fun j => ⟨hs, rfl, [], rfl, rfl⟩
  obtain ⟨-, -, hs', hkept, l, hl, -⟩ := h s.journal [] p s _ (hrelated [])
  refine ⟨l, hl, hs', hkept, fun j => ?_⟩
  obtain ⟨hr, hp, -, -, l', hl', ht⟩ := h s.journal j p s _ (hrelated j)
  obtain rfl : l' = l := List.append_cancel_right (hl'.symm.trans hl)
  exact Prod.ext hr (Prod.ext hp ht)

end

end Sequencer
