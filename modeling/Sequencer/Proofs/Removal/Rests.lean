import Sequencer.Proofs.Moments

/-!
# Sequences at rest

A sequence that was removed keeps its number, and nothing can be done to a number that no name
means: no command sets the sequence running again, and a turn that still comes to it in the copy of
the list that a frame goes by finds it idle. What is left is the work of operations that were under
way when it was removed.
-/

set_option autoImplicit false

namespace Sequencer

open Site (Nowhere Within)

/-- The sequence was made, no name means it, and it does not run. -/
structure Stage.Retired (s : Stage) (id : Nat) : Prop where
  lt : id < s.sequences.length
  unregistered : ¬ s.Registered id
  idle : (s.sequence id).running = false

/-- Comes neither of a turn that found the sequence running, nor of an operation on it by its name,
nor of a callback of it; and calls a step of it only at an `own` site. -/
def Entry.Rests (own : Site → Prop) (id : Nat) : Entry → Prop
  | .turn i τ => i = id → τ = .paused ∨ τ = .idle
  | .notified i _ _ _ => i ≠ id
  | .began i => i ≠ id
  | .restored i _ => i ≠ id
  | .moved i m _ => i = id → m = .settled
  | .called σ _ => σ.root = some id → own σ
  | .returned σ _ => σ.root = some id → own σ
  | _ => True

namespace Entry.Rests

variable {own own' : Site → Prop} {id : Nat} {e : Entry}

theorem of_remark (he : e.isRemark = true) : e.Rests own id := by
  cases e <;> simp_all [Entry.isRemark, Entry.Rests]

theorem mono (h : e.Rests own id) (hw : ∀ σ : Site, own σ → σ.root = some id → own' σ) :
    e.Rests own' id := by
  cases e with
  | called σ c => exact fun hr => hw σ (h hr) hr
  | returned σ r => exact fun hr => hw σ (h hr) hr
  | _ => exact h

end Entry.Rests

structure Stage.Rests (own : Site → Prop) (id : Nat) (s t : Stage) : Prop where
  length : s.sequences.length ≤ t.sequences.length
  names : ∀ name, t.find? name = some id → s.find? name = some id
  idle : (t.sequence id).running = (s.sequence id).running
  active : id ∈ t.active → id ∈ s.active
  journal : ∃ l, t.journal = l ++ s.journal ∧ ∀ e ∈ l, e.Rests own id

namespace Stage.Rests

variable {own own' : Site → Prop} {id : Nat} {s t u : Stage}

theorem refl (own : Site → Prop) (id : Nat) (s : Stage) : Stage.Rests own id s s :=
  ⟨Nat.le_refl _, fun _ h => h, rfl, fun h => h, [], rfl, by simp⟩

theorem trans (h : Stage.Rests own id s t) (h' : Stage.Rests own id t u) :
    Stage.Rests own id s u := by
  obtain ⟨l, hl, hr⟩ := h.journal
  obtain ⟨l', hl', hr'⟩ := h'.journal
  refine ⟨Nat.le_trans h.length h'.length, fun name hn => h.names name (h'.names name hn),
    h'.idle.trans h.idle, fun hi => h.active (h'.active hi), l' ++ l,
    by rw [hl', hl, List.append_assoc], fun e he => ?_⟩
  rcases List.mem_append.mp he with he | he
  · exact hr' e he
  · exact hr e he

theorem mono (h : Stage.Rests own id s t)
    (hw : ∀ σ : Site, own σ → σ.root = some id → own' σ) : Stage.Rests own' id s t := by
  obtain ⟨l, hl, hr⟩ := h.journal
  exact { h with journal := ⟨l, hl, fun e he => (hr e he).mono hw⟩ }

theorem aside (h : Aside s t) : Stage.Rests own id s t := by
  obtain ⟨l, hl, hr⟩ := h.journal
  exact ⟨Nat.le_of_eq (by rw [h.sequences]), fun name hn => (h.find? name).symm.trans hn,
    by rw [h.sequence], fun hi => by rwa [h.active] at hi, l, hl, fun e he => .of_remark (hr e he)⟩

theorem note (s : Stage) {e : Entry} (he : e.Rests own id) : Stage.Rests own id s (s.note e) :=
  { refl own id s with journal := ⟨[e], rfl, by simpa using he⟩ }

theorem modify (s : Stage) (i : Nat) {f : Sequence → Sequence}
    (hf : i = id → ∀ q, (f q).running = q.running) : Stage.Rests own id s (s.modify i f) := by
  have hr : ((s.modify i f).sequence id).running = (s.sequence id).running := by
    by_cases hi : id = i
    · exact s.field_modify (·.running) (hf hi.symm) i id
    · rw [s.sequence_modify_ne f hi]
  exact { refl own id s with length := Nat.le_of_eq (s.length_modify i f).symm, idle := hr }

/-- To put another sequence on the list changes nothing for this one. -/
theorem enlist (s : Stage) {i : Nat} (hi : i ≠ id) : Stage.Rests own id s (s.enlist i) :=
  ⟨by simp, by simp, by simp, fun h => ((s.mem_active_enlist i id).mp h).resolve_left hi.symm,
    [], by simp, by simp⟩

theorem delist (s : Stage) (i : Nat) : Stage.Rests own id s (s.delist i) :=
  { refl own id s with active := fun hi => ((s.mem_active_delist i id).mp hi).1 }

theorem sweep (s : Stage) (i : Nat) : Stage.Rests own id s (s.sweep i) := by
  unfold Stage.sweep
  split
  · exact .refl own id s
  · exact .delist s i

theorem dropping (s : Stage) (i : Nat) : Stage.Rests own id s (s.dropping i) :=
  (note s (e := .dropped i _) trivial).trans (.delist _ i)

theorem hold (s : Stage) (h : Table String Held) : Stage.Rests own id s { s with held := h } :=
  { refl own id s with names := fun _ hn => hn }

theorem unregister (s : Stage) (name : String) : Stage.Rests own id s (s.unregister name) :=
  { refl own id s with names := fun _ hn => s.find?_of_unregister hn }

theorem enroll (hid : id < s.sequences.length) (q : Sequence) :
    Stage.Rests own id s (s.enroll q) := by
  refine ⟨by simp, fun name hn => ?_, ?_, fun h => h, [], rfl, by simp⟩
  · rw [Stage.find?_enroll] at hn
    split at hn
    · have hlen := Option.some.inj hn
      omega
    · exact hn
  · rw [Stage.sequence_enroll, if_neg (Nat.ne_of_lt hid)]

theorem ending (s : Stage) {i : Nat} (hi : i ≠ id) (hook : Hook) (n : Notice) :
    Stage.Rests own id s (s.ending i hook n) := by
  have hm : Stage.Rests own id s (s.modify i Sequence.ended) := .modify s i fun h => absurd h hi
  exact (hm.trans (.note _ (e := .notice n) trivial)).trans (.note _ hi)

theorem starting (s : Stage) {i : Nat} (hi : i ≠ id) (n : Notice) :
    Stage.Rests own id s (s.starting i n) := by
  have hm : Stage.Rests own id s (s.modify i Sequence.begun) := .modify s i fun h => absurd h hi
  have hb := (hm.trans (.note _ (e := .notice n) trivial)).trans (.note _ (e := .began i) hi)
  have hc := hb.trans (.note _ (e := .moved i .started 0) fun h => absurd h hi)
  exact (hc.trans (.enlist _ hi)).trans (.note _ hi)

theorem restoring (s : Stage) {i : Nat} (hi : i ≠ id) (index : Nat) :
    Stage.Rests own id s (s.restoring i index) := by
  have hm : Stage.Rests own id s (s.modify i (Sequence.resumed index)) :=
    .modify s i fun h => absurd h hi
  have hr := hm.trans (.note _ (e := .restored i (s.sequence i).running) hi)
  have hc : ∀ u : Stage, Stage.Rests own id u (u.note (.moved i (.restored index)
    (u.sequence i).current)) := fun u => .note u fun h => absurd h hi
  exact (hr.trans (hc _)).trans (.enlist _ hi)

theorem lending (s : Stage) {i : Nat} (hi : i ≠ id) : Stage.Rests own id s (s.lending i) := by
  have hn : Stage.Rests own id s (s.note (.turn i .driven)) := .note s fun h => absurd h hi
  refine (hn.trans (.modify _ i ?_)).trans (.modify _ i ?_) <;> exact fun h => absurd h hi

/-- A turn comes to its end, be it one in which the retired sequence itself was under way. -/
theorem afterPlay (s : Stage) (i : Nat) (q : Sequence) (part : Part) (r : Except Halt Status) :
    Stage.Rests own id s (s.afterPlay i q part r) := by
  have hr : Stage.Rests own id s (s.returning i q.current part) := .modify s i fun _ _ => rfl
  cases r with
  | error e => exact hr
  | ok status =>
    have hd := hr.trans (.note _ (e := .drove i status) trivial)
    simp only [Stage.afterPlay, Stage.advancing]
    split
    · refine (hd.trans (.modify _ i ?_)).trans (.note _ (e := .moved i .settled _) fun _ => rfl)
      exact fun _ _ => rfl
    · exact hd

end Stage.Rests

namespace Stage.Retired

variable {own : Site → Prop} {id i : Nat} {s t : Stage} {name : String}

/-- The sequence that a name means is another one. -/
theorem ne_of_find (h : s.Retired id) (hn : s.find? name = some i) : i ≠ id := by
  rintro rfl
  exact h.unregistered ⟨name, hn⟩

theorem ne_of_running (h : s.Retired id) (hr : (s.sequence i).running = true) : i ≠ id := by
  rintro rfl
  rw [h.idle] at hr
  exact absurd hr (by simp)

/-- Numbers are not given twice, so it stays retired. -/
theorem rests (h : s.Retired id) (ht : Stage.Rests own id s t) : t.Retired id := by
  refine ⟨Nat.lt_of_lt_of_le h.lt ht.length, ?_, ht.idle.trans h.idle⟩
  rintro ⟨name, hf⟩
  exact h.unregistered ⟨name, ht.names name hf⟩

end Stage.Retired

/-- No single change but one that is under way touches a retired sequence. -/
theorem Incident.rests {own : Site → Prop} {s t : Stage} (h : Incident own s t) {id : Nat}
    (hr : s.Retired id) : Stage.Rests own id s t := by
  cases h with
  | aside h => exact .aside h
  | called c hσ => exact .note s fun hroot => Site.of_rooted hσ hroot
  | returned r hσ => exact .note s fun hroot => Site.of_rooted hσ hroot
  | held h _ => exact .hold s h
  | registered resolve o _ => exact .enroll hr.lt _
  | @registeredHeld slot q _ _ =>
    have hh : Stage.Rests own id s { s with held := s.held.erase slot } := .hold s _
    exact hh.trans (.enroll (s := { s with held := s.held.erase slot }) hr.lt q)
  | checked i => exact .modify s i fun _ _ => rfl
  | paused i f => exact .modify s i fun _ _ => rfl
  | started n hn _ => exact .starting s (hr.ne_of_find hn) n
  | @reset _ i hn =>
    have hi := hr.ne_of_find hn
    exact (Stage.Rests.modify s i fun h => absurd h hi).trans (.note _ fun h => absurd h hi)
  | restored index hn => exact .restoring s (hr.ne_of_find hn) index
  | ended n _ hrun => exact .ending s (hr.ne_of_running hrun) _ n
  | dropped i => exact .dropping s i
  | unregistered name => exact .unregister s name
  | delisted i => exact .delist s i
  | swept i => exact .sweep s i
  | @turned i τ hτ =>
    refine .note s fun hi => ?_
    subst hi
    cases τ with
    | paused => exact .inl rfl
    | idle => exact .inr rfl
    | completed => exact absurd rfl (hr.ne_of_running hτ.1.running)
    | busy => exact absurd rfl (hr.ne_of_running hτ.1.running)
    | missing => exact False.elim hτ
    | driven => exact False.elim hτ

theorem Course.rests {own : Site → Prop} {calm : Bool} {s t : Stage} (h : Course own calm s t)
    {id : Nat} (hr : s.Retired id) : Stage.Rests own id s t := by
  induction h with
  | single h => exact h.rests hr
  | halt _ ih => exact ih hr
  | trans _ _ ih ih' =>
    have hst := ih hr
    exact hst.trans (ih' (hr.rests hst))
  | widen hw _ ih => exact (ih hr).mono fun σ hσ hroot => Site.of_rooted (hw σ hσ) hroot
  | @driven own run dt s t i part r p hd h ih =>
    have hi := hr.ne_of_running hd.due.running
    have hl : Stage.Rests own id s (s.lending i) := .lending s hi
    have ht : Stage.Rests own id (s.lending i) t := by
      apply (ih (hr.rests hl)).mono
      intro σ hσ hroot
      rw [hσ.root_eq] at hroot
      exact absurd (Option.some.inj hroot) hi
    exact (hl.trans ht).trans (.afterPlay t i (s.sequence i) ⟨part.step, p⟩ r)

namespace Errand

variable {e : Errand} {s t : Stage} {id : Nat}

/-- No operation begins on a sequence that is retired. -/
theorem Begins.rests (h : e.Begins s t) (hr : s.Retired id) :
    e.id ≠ id ∧ Stage.Rests Nowhere id s t := by
  cases h with
  | driving hd _ _ =>
    have hi := hr.ne_of_running hd.running
    exact ⟨hi, .lending s hi⟩
  | stopping n hn _ =>
    have hi := hr.ne_of_find hn
    exact ⟨hi, .ending s hi _ n⟩
  | @removing _ name i n hn _ =>
    have hi := hr.ne_of_find hn
    exact ⟨hi, (Stage.Rests.unregister s name).trans (.ending _ hi _ n)⟩
  | @completing _ i n hd _ =>
    have hi := hr.ne_of_running hd.running
    have hn : Stage.Rests Nowhere id s (s.note (.turn i .completed)) :=
      .note s fun h => absurd h hi
    exact ⟨hi, hn.trans (.ending _ hi _ n)⟩

/-- An operation that was under way on it does not set it running. -/
theorem Ends.rests (h : e.Ends s t) : Stage.Rests Nowhere id s t := by
  cases h with
  | driven _ i q part p status =>
    exact (Stage.Rests.afterPlay s i q ⟨part.step, p⟩ (.ok status)).trans (.sweep _ i)
  | broken _ i q part p h => exact .afterPlay s i q _ _
  | stopped _ i => exact .dropping s i
  | removed _ i => exact .delist s i
  | completed _ i => exact .sweep s i
  | abandoned => exact .refl Nowhere id s

end Errand

def underway (pending : List Errand) (id : Nat) (σ : Site) : Prop :=
  ∃ q part, .driving id q part ∈ pending ∧ Within (.top id q.current) σ

theorem underway_of_calledFrom {pending : List Errand} {id : Nat} {σ : Site}
    (h : calledFrom pending σ) (hσ : σ.root = some id) : underway pending id σ := by
  induction pending with
  | nil => exact False.elim h
  | cons e rest ih =>
    cases e with
    | driving i q part =>
      have hw : Within (.top i q.current) σ := h
      obtain rfl : i = id := Option.some.inj (hw.root_eq.symm.trans hσ)
      exact ⟨q, part, List.mem_cons_self, hw⟩
    | _ =>
      obtain ⟨q, part, hmem, hw⟩ := ih h
      exact ⟨q, part, List.mem_cons_of_mem _ hmem, hw⟩

/-- From a moment on a retired sequence is at rest but for what is under way, and no further
operation on it begins. -/
theorem Happens.rests {m k : Moment} (h : Happens m k) {id : Nat} (hr : m.stage.Retired id) :
    Stage.Rests (underway m.pending id) id m.stage k.stage ∧
      ∀ e ∈ k.pending, e.id = id → e ∈ m.pending := by
  cases h with
  | course hl =>
    refine ⟨(hl.course.rests hr).mono fun _ => underway_of_calledFrom, fun _ he _ => he⟩
  | @begins pending e s t hb =>
    obtain ⟨hne, hst⟩ := hb.rests hr
    refine ⟨hst.mono fun _ => False.elim, fun e' he' hid => ?_⟩
    rcases List.mem_cons.mp he' with rfl | he'
    · exact absurd hid hne
    · exact he'
  | ends he =>
    exact ⟨he.rests.mono fun _ => False.elim, fun _ he' _ => List.mem_cons_of_mem _ he'⟩

theorem Moment.Before.rests {m k : Moment} (h : m.Before k) {id : Nat}
    (hr : m.stage.Retired id) :
    Stage.Rests (underway m.pending id) id m.stage k.stage ∧
      ∀ e ∈ k.pending, e.id = id → e ∈ m.pending := by
  induction h with
  | refl => exact ⟨.refl _ id m.stage, fun _ he _ => he⟩
  | @step k l _ hk ih =>
    obtain ⟨hst, hsub⟩ := ih
    obtain ⟨hst', hsub'⟩ := hk.rests (hr.rests hst)
    refine ⟨hst.trans (hst'.mono ?_), fun e he hid => hsub e (hsub' e he hid) hid⟩
    rintro σ ⟨q, part, hmem, hw⟩ -
    exact ⟨q, part, hsub _ hmem rfl, hw⟩

end Sequencer
