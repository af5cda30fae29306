import Sequencer.Proofs.Course.Incidents
import Sequencer.Proofs.Course.Session

/-!
# What lasts through every course

A course may halt, and its callbacks may do anything to any sequence. Even so the journal only
grows, a number keeps its name and its steps, and a sequence whose step is being called keeps the
progress of its steps, gets no second call into them, and is not moved on by anybody else.
-/

set_option autoImplicit false

namespace Sequencer

open Site (Nowhere Within)

def Sequence.steps (q : Sequence) : List (Step Command) := q.parts.map (·.step)

theorem Sequence.length_steps (q : Sequence) : q.steps.length = q.stepCount := by
  simp [steps, stepCount]

theorem Sequence.steps_withPart {q : Sequence} {index : Nat} {part : Part}
    (h : q.parts[index]? = some part) (p : part.step.Progress) :
    (q.withPart index ⟨part.step, p⟩).steps = q.steps := by
  obtain ⟨hi, rfl⟩ := List.getElem?_eq_some_iff.mp h
  simp only [steps, withPart, List.map_set]
  apply List.ext_getElem?
  intro i
  rw [List.getElem?_set]
  split
  · next h => subst h; simp [hi]
  · rfl

def Entry.Spares (own : Site → Prop) (id : Nat) : Entry → Prop
  | .called σ _ => σ.root = some id → own σ
  | .returned σ _ => σ.root = some id → own σ
  | .turn i .driven => i ≠ id
  | .moved i .settled _ => i ≠ id
  | _ => True

theorem Entry.Spares.of_remark {e : Entry} (he : e.isRemark = true) (own : Site → Prop) (id : Nat) :
    e.Spares own id := by
  cases e <;> simp_all [Entry.isRemark, Entry.Spares]

theorem Entry.Spares.ne_driven {own : Site → Prop} {id : Nat} {e : Entry} (h : e.Spares own id) :
    e ≠ .turn id .driven := by
  rintro rfl
  exact h rfl

theorem Entry.Spares.mono {own own' : Site → Prop} {id : Nat} {e : Entry} (h : e.Spares own id)
    (hw : ∀ σ : Site, own σ → σ.root = some id → own' σ) : e.Spares own' id := by
  cases e with
  | called σ c => exact fun hr => hw σ (h hr) hr
  | returned σ r => exact fun hr => hw σ (h hr) hr
  | turn i τ => cases τ <;> exact h
  | moved i m c => cases m <;> exact h
  | _ => trivial

structure Stage.Sound (s : Stage) : Prop where
  named : ∀ name id, s.find? name = some id →
    id < s.sequences.length ∧ (s.sequence id).name = name
  held : ∀ slot q, s.held.get? slot = some (.sequence q) →
    ∃ resolve o, q = Sequence.build resolve o

structure Extends (own : Site → Prop) (s t : Stage) : Prop where
  journal : ∃ l, t.journal = l ++ s.journal ∧
    ∀ id, (s.sequence id).ticking = true → ∀ e ∈ l, e.Spares own id
  length : s.sequences.length ≤ t.sequences.length
  name : ∀ id, id < s.sequences.length → (t.sequence id).name = (s.sequence id).name
  steps : ∀ id, id < s.sequences.length → (t.sequence id).steps = (s.sequence id).steps
  ticking : ∀ id, (t.sequence id).ticking = (s.sequence id).ticking
  parts : ∀ id, (s.sequence id).ticking = true → (t.sequence id).parts = (s.sequence id).parts
  names : ∀ name id, t.find? name = some id →
    s.find? name = some id ∨ s.sequences.length ≤ id

namespace Extends

variable {own own' : Site → Prop} {s t u : Stage}

theorem refl (own : Site → Prop) (s : Stage) : Extends own s s :=
  ⟨⟨[], rfl, by simp⟩, Nat.le_refl _, fun _ _ => rfl, fun _ _ => rfl, fun _ => rfl, fun _ _ => rfl,
    fun _ _ h => .inl h⟩

theorem trans (h : Extends own s t) (h' : Extends own t u) : Extends own s u where
  journal := by
    obtain ⟨l, hl, hs⟩ := h.journal
    obtain ⟨l', hl', hs'⟩ := h'.journal
    refine ⟨l' ++ l, by rw [hl', hl, List.append_assoc], fun id ht e he => ?_⟩
    rcases List.mem_append.mp he with he | he
    · exact hs' id ((h.ticking id).trans ht) e he
    · exact hs id ht e he
  length := Nat.le_trans h.length h'.length
  name id hid := (h'.name id (Nat.lt_of_lt_of_le hid h.length)).trans (h.name id hid)
  steps id hid := (h'.steps id (Nat.lt_of_lt_of_le hid h.length)).trans (h.steps id hid)
  ticking id := (h'.ticking id).trans (h.ticking id)
  parts id ht := (h'.parts id ((h.ticking id).trans ht)).trans (h.parts id ht)
  names name id hf := by
    rcases h'.names name id hf with hf | hl
    · exact h.names name id hf
    · exact .inr (Nat.le_trans h.length hl)

theorem mono (h : Extends own s t)
    (hw : ∀ id, (s.sequence id).ticking = true → ∀ σ, own σ → σ.root = some id → own' σ) :
    Extends own' s t where
  journal := by
    obtain ⟨l, hl, hs⟩ := h.journal
    exact ⟨l, hl, fun id ht e he => (hs id ht e he).mono (hw id ht)⟩
  length := h.length
  name := h.name
  steps := h.steps
  ticking := h.ticking
  parts := h.parts
  names := h.names

theorem aside (h : Aside s t) : Extends own s t where
  journal := by
    obtain ⟨l, hl, hr⟩ := h.journal
    exact ⟨l, hl, fun id _ e he => .of_remark (hr e he) own id⟩
  length := Nat.le_of_eq (by rw [h.sequences])
  name id _ := by rw [h.sequence]
  steps id _ := by rw [h.sequence]
  ticking id := by rw [h.sequence]
  parts id _ := by rw [h.sequence]
  names name id hf := .inl ((h.find? name).symm.trans hf)

theorem note (h : Extends own s t) {e : Entry}
    (he : ∀ id, (s.sequence id).ticking = true → e.Spares own id) : Extends own s (t.note e) :=
  h.trans { refl own t with
    journal := ⟨[e], rfl, fun id ht e' he' => by
      rw [List.mem_singleton.mp he']
      exact he id ((h.ticking id).symm.trans ht)⟩ }

theorem modify (h : Extends own s t) {id : Nat} {f : Sequence → Sequence}
    (hn : ∀ q, (f q).name = q.name) (hp : ∀ q, (f q).parts = q.parts)
    (ht : ∀ q, (f q).ticking = q.ticking) : Extends own s (t.modify id f) := by
  have hs : ∀ q, (f q).steps = q.steps := fun q => by simp only [Sequence.steps, hp]
  exact h.trans {
    journal := ⟨[], rfl, by simp⟩
    length := by simp
    name := fun i _ => t.field_modify (·.name) hn id i
    steps := fun i _ => t.field_modify Sequence.steps hs id i
    ticking := fun i => t.field_modify (·.ticking) ht id i
    parts := fun i _ => t.field_modify (·.parts) hp id i
    names := fun _ _ hf => .inl hf }

theorem enlist (h : Extends own s t) (id : Nat) : Extends own s (t.enlist id) :=
  h.trans {
    journal := ⟨[], by simp, by simp⟩
    length := by simp
    name := by simp
    steps := by simp
    ticking := by simp
    parts := by simp
    names := fun name i hf => .inl (by simpa using hf) }

theorem delist (h : Extends own s t) (id : Nat) : Extends own s (t.delist id) :=
  h.trans { refl own t with names := fun _ _ hf => .inl hf }

theorem sweep (h : Extends own s t) (id : Nat) : Extends own s (t.sweep id) := by
  unfold Stage.sweep
  split
  · exact h
  · exact h.delist id

theorem unregister (s : Stage) (name : String) : Extends own s (s.unregister name) :=
  { refl own s with
    names := fun n i hf => by
      rw [Stage.find?_unregister] at hf
      split at hf
      · exact absurd hf (by simp)
      · exact .inl hf }

theorem hold (s : Stage) (h : Table String Held) : Extends own s { s with held := h } :=
  { refl own s with names := fun _ _ hf => .inl hf }

theorem enroll (h : Extends own s t) {q : Sequence} (hq : q.ticking = false) :
    Extends own s (t.enroll q) := by
  refine h.trans ⟨⟨[], rfl, by simp⟩, by simp, fun i hi => ?_, fun i hi => ?_, fun i => ?_,
    fun i hi => ?_, fun name i hf => ?_⟩
  · rw [Stage.sequence_enroll, if_neg (by omega)]
  · rw [Stage.sequence_enroll, if_neg (by omega)]
  · rw [Stage.sequence_enroll]
    split
    · next hi => rw [hq, t.sequence_of_length_le (by omega)]
    · rfl
  · rw [Stage.sequence_enroll]
    split
    · next h => rw [t.sequence_of_length_le (by omega)] at hi; exact absurd hi (by simp)
    · rfl
  · rw [Stage.find?_enroll] at hf
    split at hf
    · exact .inr (Nat.le_of_eq (Option.some.inj hf))
    · exact .inl hf

theorem starting (s : Stage) (id : Nat) (n : Notice) : Extends own s (s.starting id n) := by
  have hq : Extends own s (s.modify id Sequence.begun) :=
    (refl own s).modify (fun _ => rfl) (fun _ => rfl) fun _ => rfl
  have hn : Extends own s ((s.modify id Sequence.begun).note (.notice n)) :=
    hq.note fun _ _ => trivial
  have hb : Extends own s (((s.modify id Sequence.begun).note (.notice n)).note (.began id)) :=
    hn.note fun _ _ => trivial
  have hm : Extends own s ((((s.modify id Sequence.begun).note (.notice n)).note
      (.began id)).note (.moved id .started 0)) := hb.note fun _ _ => trivial
  exact (hm.enlist id).note fun _ _ => trivial

theorem ending (s : Stage) (id : Nat) (hook : Hook) (n : Notice) :
    Extends own s (s.ending id hook n) := by
  have hq : Extends own s (s.modify id Sequence.ended) :=
    (refl own s).modify (fun _ => rfl) (fun _ => rfl) fun _ => rfl
  have hn : Extends own s ((s.modify id Sequence.ended).note (.notice n)) :=
    hq.note fun _ _ => trivial
  exact hn.note fun _ _ => trivial

theorem rewinding (s : Stage) (id : Nat) : Extends own s (s.rewinding id) := by
  have hq : Extends own s (s.modify id Sequence.rewound) :=
    (refl own s).modify (fun _ => rfl) (fun _ => rfl) fun _ => rfl
  exact hq.note fun _ _ => trivial

theorem restoring (s : Stage) (id index : Nat) : Extends own s (s.restoring id index) := by
  have hq : Extends own s (s.modify id (Sequence.resumed index)) :=
    (refl own s).modify (fun _ => rfl) (fun _ => rfl) fun _ => rfl
  have hn : Extends own s ((s.modify id (Sequence.resumed index)).note
      (.restored id (s.sequence id).running)) := hq.note fun _ _ => trivial
  have hm : Extends own s (((s.modify id (Sequence.resumed index)).note
      (.restored id (s.sequence id).running)).note (.moved id (.restored index)
        ((s.modify id (Sequence.resumed index)).sequence id).current)) :=
    hn.note fun _ _ => trivial
  exact hm.enlist id

theorem dropping (s : Stage) (id : Nat) : Extends own s (s.dropping id) :=
  delist (note (refl own s) (by intros; trivial)) id

section

variable {id : Nat} {part : Part} {p : part.step.Progress}

/-- A step that was lent comes back, from what the play with it keeps. -/
theorem returning (hid : id < s.sequences.length) (ht : (s.sequence id).ticking = false)
    (hp : (s.sequence id).parts[(s.sequence id).current]? = some part)
    (h : Extends (Within (.top id (s.sequence id).current)) (s.lending id) t) :
    Extends own s (t.returning id (s.sequence id).current ⟨part.step, p⟩) := by
  have hself := s.sequence_lending_self hid
  have hne : ∀ i, i ≠ id → (s.lending id).sequence i = s.sequence i :=
    fun _ => s.sequence_lending_ne
  have hl : id < (s.lending id).sequences.length := by rwa [s.length_lending]
  have hlt : id < t.sequences.length := Nat.lt_of_lt_of_le hl h.length
  have hother : ∀ i, (s.sequence i).ticking = true → i ≠ id := by
    rintro i hi rfl
    rw [ht] at hi
    exact absurd hi (by simp)
  constructor
  · obtain ⟨l, hj, hs⟩ := h.journal
    rw [s.journal_lending] at hj
    refine ⟨l ++ [.turn id .driven], by simp [Stage.returning, hj], fun i hi e he => ?_⟩
    have hi' := hother i hi
    rcases List.mem_append.mp he with he | he
    · have hs := hs i (by rw [hne i hi']; exact hi) e he
      apply hs.mono
      intro σ hw hr
      rw [hw.root_eq] at hr
      exact absurd (Option.some.inj hr).symm hi'
    · rw [List.mem_singleton.mp he]
      exact fun hid => hi' hid.symm
  · have hle := h.length
    rw [s.length_lending] at hle
    simpa [Stage.returning] using hle
  · intro i hi
    have hback : ((t.returning id (s.sequence id).current ⟨part.step, p⟩).sequence i).name =
        (t.sequence i).name := by
      apply t.field_modify (·.name)
      exact fun _ => rfl
    rw [hback, h.name i (by rwa [s.length_lending])]
    by_cases hi' : i = id
    · rw [hi', hself]
    · rw [hne i hi']
  · intro i hi
    have hn := h.steps i (by rwa [s.length_lending])
    by_cases hi' : i = id
    · subst hi'
      have hparts := h.parts i (by rw [hself])
      rw [hself] at hparts hn
      rw [Stage.returning, Stage.sequence_modify_self _ _ hlt]
      have hw := Sequence.steps_withPart (q := t.sequence i) (by rw [hparts]; exact hp) p
      exact hw.trans hn
    · rw [Stage.returning, Stage.sequence_modify_ne _ _ hi', hn, hne i hi']
  · intro i
    by_cases hi' : i = id
    · subst hi'
      rw [Stage.returning, Stage.sequence_modify_self _ _ hlt, ht]
    · rw [Stage.returning, Stage.sequence_modify_ne _ _ hi', h.ticking, hne i hi']
  · intro i hi
    have hi' := hother i hi
    have hparts := h.parts i (by rwa [hne i hi'])
    rw [Stage.returning, Stage.sequence_modify_ne _ _ hi', hparts, hne i hi']
  · intro name i hf
    have hn := h.names name i hf
    rwa [s.length_lending] at hn

theorem afterPlay {r : Except Halt Status} (hid : id < s.sequences.length)
    (ht : (s.sequence id).ticking = false)
    (hp : (s.sequence id).parts[(s.sequence id).current]? = some part)
    (h : Extends (Within (.top id (s.sequence id).current)) (s.lending id) t) :
    Extends own s (t.afterPlay id (s.sequence id) ⟨part.step, p⟩ r) := by
  have hr : Extends own s _ := returning (p := p) hid ht hp h
  cases r with
  | error e => exact hr
  | ok status =>
    have hr : Extends own s (Stage.note (.drove id status) _) := note hr fun _ _ => trivial
    simp only [Stage.afterPlay, Stage.advancing]
    split
    · refine note (modify hr ?_ ?_ ?_) fun i hi => ?_
      · exact fun _ => rfl
      · exact fun _ => rfl
      · exact fun _ => rfl
      · rintro rfl
        rw [ht] at hi
        exact absurd hi (by simp)
    · exact hr

end

end Extends

namespace Stage.Sound

variable {s t : Stage}

theorem of_extends {own : Site → Prop} (hs : s.Sound) (h : Extends own s t)
    (hn : ∀ name id, t.find? name = some id → s.find? name = some id)
    (hh : ∀ slot q, t.held.get? slot = some (.sequence q) →
      s.held.get? slot = some (.sequence q) ∨ ∃ resolve o, q = Sequence.build resolve o) :
    t.Sound where
  named name id hf := by
    obtain ⟨hid, hname⟩ := hs.named name id (hn name id hf)
    exact ⟨Nat.lt_of_lt_of_le hid h.length, (h.name id hid).trans hname⟩
  held slot q hq := (hh slot q hq).elim (hs.held slot q) fun hb => hb

theorem same {own : Site → Prop} (hs : s.Sound) (h : Extends own s t)
    (hr : t.registry = s.registry) (hh : t.held = s.held) : t.Sound :=
  hs.of_extends h (fun name id hf => by simpa only [Stage.find?, hr] using hf)
    fun slot q hq => .inl (by rwa [hh] at hq)

theorem enroll (hs : s.Sound) (q : Sequence) : (s.enroll q).Sound where
  named name id hf := by
    rw [Stage.find?_enroll] at hf
    rw [Stage.length_enroll, Stage.sequence_enroll]
    split at hf
    · next h =>
      obtain rfl := Option.some.inj hf
      exact ⟨by omega, by rw [if_pos rfl, h]⟩
    · obtain ⟨hid, hname⟩ := hs.named name id hf
      exact ⟨by omega, by rw [if_neg (by omega), hname]⟩
  held := hs.held

theorem modify (hs : s.Sound) (id : Nat) {f : Sequence → Sequence}
    (hn : ∀ q, (f q).name = q.name) : (s.modify id f).Sound where
  named name i hf := by
    obtain ⟨hi, hname⟩ := hs.named name i hf
    exact ⟨by simpa using hi, (s.field_modify (·.name) hn id i).trans hname⟩
  held := hs.held

theorem note (hs : s.Sound) (e : Entry) : (s.note e).Sound := ⟨hs.named, hs.held⟩

theorem unregister (hs : s.Sound) (name : String) : (s.unregister name).Sound :=
  ⟨fun n i hf => hs.named n i (s.find?_of_unregister hf), hs.held⟩

theorem hold (hs : s.Sound) {h : Table String Held}
    (built : ∀ slot q, h.get? slot = some (.sequence q) →
      s.held.get? slot = some (.sequence q) ∨ ∃ resolve o, q = Sequence.build resolve o) :
    ({ s with held := h } : Stage).Sound :=
  ⟨hs.named, fun slot q hq => (built slot q hq).elim (hs.held slot q) fun hb => hb⟩

theorem ending (hs : s.Sound) (id : Nat) (hook : Hook) (n : Notice) :
    (s.ending id hook n).Sound := by
  refine note (note (modify hs id ?_) _) _
  exact fun _ => rfl

theorem lending (hs : s.Sound) (id : Nat) : (s.lending id).Sound := by
  refine modify (modify (note hs _) id ?_) id ?_ <;> exact fun _ => rfl

theorem afterPlay (hs : s.Sound) (id : Nat) (q : Sequence) (part : Part) (r : Except Halt Status) :
    (s.afterPlay id q part r).Sound := by
  have hr : (s.returning id q.current part).Sound := hs.modify id fun _ => rfl
  cases r with
  | error e => exact hr
  | ok status =>
    simp only [Stage.afterPlay, Stage.advancing]
    split
    · refine note (modify (note hr _) id ?_) _
      exact fun _ => rfl
    · exact note hr _

end Stage.Sound

theorem Incident.lasts {own : Site → Prop} {s t : Stage} (h : Incident own s t) (hs : s.Sound) :
    t.Sound ∧ Extends own s t := by
  have paired : Extends own s t → t.registry = s.registry → t.held = s.held →
      t.Sound ∧ Extends own s t := fun he hr hh => ⟨hs.same he hr hh, he⟩
  cases h with
  | aside h => exact paired (.aside h) h.registry h.held
  | called c hσ => exact paired (.note (.refl own s) fun _ _ hr => Site.of_rooted hσ hr) rfl rfl
  | returned r hσ => exact paired (.note (.refl own s) fun _ _ hr => Site.of_rooted hσ hr) rfl rfl
  | held h built => exact ⟨hs.hold built, .hold s h⟩
  | registered resolve o _ => exact ⟨hs.enroll _, .enroll (.refl own s) rfl⟩
  | @registeredHeld slot q hq _ =>
    obtain ⟨resolve, o, rfl⟩ := hs.held slot q hq
    have herase : ({ s with held := s.held.erase slot } : Stage).Sound := by
      apply hs.hold
      intro key q hk
      by_cases h : key = slot
      · rw [h, Table.get?_erase_self] at hk
        exact absurd hk (by simp)
      · rw [Table.get?_erase_ne _ h] at hk
        exact .inl hk
    exact ⟨herase.enroll _, .enroll (.hold s _) rfl⟩
  | checked id =>
    exact paired (.modify (.refl own s) (fun _ => rfl) (fun _ => rfl) fun _ => rfl) rfl rfl
  | paused id f =>
    exact paired (.modify (.refl own s) (fun _ => rfl) (fun _ => rfl) fun _ => rfl) rfl rfl
  | started n _ _ =>
    exact paired (.starting s _ n) (by simp [Stage.starting]) (by simp [Stage.starting])
  | reset _ => exact paired (.rewinding s _) rfl rfl
  | restored index _ =>
    exact paired (.restoring s _ index) (by simp [Stage.restoring]) (by simp [Stage.restoring])
  | ended n _ _ => exact paired (.ending s _ _ n) rfl rfl
  | dropped id => exact paired (.dropping s id) rfl rfl
  | unregistered name => exact ⟨hs.unregister name, .unregister s name⟩
  | delisted id => exact paired (.delist (.refl own s) id) rfl rfl
  | swept id => exact paired (.sweep (.refl own s) id) (by simp) (by simp)
  | @turned id τ hτ =>
    have hspares : ∀ i, (Entry.turn id τ).Spares own i := by
      intro i
      cases τ <;> trivial
    exact paired (.note (.refl own s) fun i _ => hspares i) rfl rfl

/-- No incident touches the steps of a sequence or their progress; it may only put up one that was
just built. -/
theorem Incident.parts {own : Site → Prop} {s t : Stage} (h : Incident own s t) (hs : s.Sound)
    (id : Nat) : (t.sequence id).parts = (s.sequence id).parts ∨
      s.sequences.length ≤ id ∧ ∃ resolve o, t.sequence id = Sequence.build resolve o := by
  have changed : ∀ (i : Nat) (f : Sequence → Sequence), (∀ q, (f q).parts = q.parts) →
      ((s.modify i f).sequence id).parts = (s.sequence id).parts :=
    fun i f hf => s.field_modify (·.parts) hf i id
  have enrolled : ∀ u : Stage, u.sequences = s.sequences → ∀ resolve o,
      ((u.enroll (Sequence.build resolve o)).sequence id).parts = (s.sequence id).parts ∨
      s.sequences.length ≤ id ∧
        ∃ resolve' o', (u.enroll (Sequence.build resolve o)).sequence id =
          Sequence.build resolve' o' := by
    intro u hu resolve o
    rw [Stage.sequence_enroll, Stage.sequence, hu]
    split
    · next hid => exact .inr ⟨Nat.le_of_eq hid.symm, resolve, o, rfl⟩
    · exact .inl rfl
  cases h with
  | aside h => exact .inl (by rw [h.sequence])
  | registered resolve o _ => exact enrolled s rfl resolve o
  | @registeredHeld slot q hq _ =>
    obtain ⟨resolve, o, rfl⟩ := hs.held slot q hq
    exact enrolled { s with held := s.held.erase slot } rfl resolve o
  | checked i => exact .inl (changed i _ fun _ => rfl)
  | paused i f => exact .inl (changed i _ fun _ => rfl)
  | @started _ i n _ _ =>
    rw [Stage.starting, Stage.sequence_notify, Stage.sequence_enlist]
    exact .inl (changed i Sequence.begun fun _ => rfl)
  | @reset _ i _ => exact .inl (changed i Sequence.rewound fun _ => rfl)
  | @restored _ i index _ =>
    rw [Stage.restoring, Stage.sequence_enlist]
    exact .inl (changed i (Sequence.resumed index) fun _ => rfl)
  | @ended i hook n _ _ => exact .inl (changed i Sequence.ended fun _ => rfl)
  | swept i => exact .inl (by rw [Stage.sequence_sweep])
  | _ => exact .inl rfl

/-- What lasts through every course, also if it halts. -/
theorem Course.lasts {own : Site → Prop} {calm : Bool} {s t : Stage} (h : Course own calm s t)
    (hs : s.Sound) : t.Sound ∧ Extends own s t := by
  induction h with
  | single h => exact h.lasts hs
  | halt _ ih => exact ih hs
  | trans _ _ ih ih' =>
    obtain ⟨ht, he⟩ := ih hs
    obtain ⟨hu, he'⟩ := ih' ht
    exact ⟨hu, he.trans he'⟩
  | widen hw _ ih =>
    obtain ⟨ht, he⟩ := ih hs
    constructor
    · exact ht
    · apply he.mono
      exact fun id _ σ hσ hr => Site.of_rooted (hw σ hσ) hr
  | @driven own run dt s t id part r p hd _ ih =>
    obtain ⟨ht, he⟩ := ih (hs.lending id)
    constructor
    · exact ht.afterPlay id (s.sequence id) ⟨part.step, p⟩ r
    · exact .afterPlay (s.lt_of_running hd.due.running) hd.free hd.cursor he

theorem Drive.length {run : Runner} {dt : Float32} {s t : Stage} {id : Nat} {part : Part}
    {r : Except Halt Status} {p : part.step.Progress} (hd : Drive run dt s id part r p t)
    (he : Extends (Within (.top id (s.sequence id).current)) (s.lending id) t) :
    id < t.sequences.length := by
  have hid := s.lt_of_running hd.due.running
  have hle := he.length
  rw [s.length_lending] at hle
  omega

/-- Nobody touches the parts of a sequence while one of them is played with. -/
theorem Drive.parts {run : Runner} {dt : Float32} {s t : Stage} {id : Nat} {part : Part}
    {r : Except Halt Status} {p : part.step.Progress} (hd : Drive run dt s id part r p t)
    (he : Extends (Within (.top id (s.sequence id).current)) (s.lending id) t) :
    (t.sequence id).parts = (s.sequence id).parts := by
  have hkept := he.parts id (by rw [s.sequence_lending_self (s.lt_of_running hd.due.running)])
  exact hkept.trans (s.parts_lending id id)

theorem Leads.lasts {own : Site → Prop} {calm : Bool} {s t : Stage} (h : Leads own calm s t)
    (hs : s.Sound) : t.Sound ∧ Extends own s t := h.course.lasts hs

end Sequencer
