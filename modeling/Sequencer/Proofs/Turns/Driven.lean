import Sequencer.Proofs.Ledger.Session

/-!
# Who is driven, and when

A step of a sequence is called, and a sequence completes, only in a turn of that sequence. Turns
belong to frames: where no frame is asked for, no turn is taken.
-/

set_option autoImplicit false

namespace Sequencer

/-- Drives the sequence: calls into its steps, or tells that it completed. -/
def Entry.Drives (id : Nat) : Entry → Prop
  | .called σ _ => σ.root = some id
  | .notified i _ .completed _ => i = id
  | _ => False

def Entry.turnId? : Entry → Option Nat
  | .turn id _ => some id
  | _ => none

def Entry.isTicked : Entry → Bool
  | .did c _ => c.isTick
  | _ => false

theorem Entry.not_drives_of_isRemark {e : Entry} (h : e.isRemark = true) (id : Nat) :
    ¬ e.Drives id := by
  cases e <;> simp_all [isRemark, Drives]

/-! Calls belong to turns -/

def ByTurns (own : Site → Prop) (s t : Stage) : Prop := ∃ l, t.journal = l ++ s.journal ∧
  ∀ e ∈ l, ∀ id, e.Drives id → (∃ τ, .turn id τ ∈ l) ∨ ∃ σ, own σ ∧ σ.root = some id

namespace ByTurns

variable {own own' : Site → Prop} {s t u : Stage} {id : Nat}

theorem plain {l : List Entry} (hj : t.journal = l ++ s.journal)
    (hl : ∀ e ∈ l, ∀ id, ¬ e.Drives id) : ByTurns own s t :=
  ⟨l, hj, fun e he id hd => absurd hd (hl e he id)⟩

theorem of_eq (h : t.journal = s.journal) : ByTurns own s t := plain (l := []) h (by simp)

theorem trans (h : ByTurns own s t) (h' : ByTurns own t u) : ByTurns own s u := by
  obtain ⟨l, hl, hd⟩ := h
  obtain ⟨l', hl', hd'⟩ := h'
  refine ⟨l' ++ l, by rw [hl', hl, List.append_assoc], fun e he id hid => ?_⟩
  rcases List.mem_append.mp he with he | he
  · refine (hd' e he id hid).imp_left ?_
    rintro ⟨τ, hτ⟩
    exact ⟨τ, List.mem_append_left _ hτ⟩
  · refine (hd e he id hid).imp_left ?_
    rintro ⟨τ, hτ⟩
    exact ⟨τ, List.mem_append_right _ hτ⟩

theorem widen (h : ByTurns own s t) (hw : ∀ σ, own σ → own' σ ∨ σ.root = none) :
    ByTurns own' s t := by
  obtain ⟨l, hl, hd⟩ := h
  refine ⟨l, hl, fun e he id hid => (hd e he id hid).imp_right ?_⟩
  rintro ⟨σ, hσ, hr⟩
  exact ⟨σ, Site.of_rooted (hw σ hσ) hr, hr⟩

/-- What comes after the turn of a sequence has begun may drive it. -/
theorem turn {l : List Entry} {τ : Turn} (hj : t.journal = l ++ .turn id τ :: s.journal)
    (hl : ∀ e ∈ l, ∀ i, e.Drives i → i = id ∨ (∃ τ, .turn i τ ∈ l) ∨
      ∃ σ, own σ ∧ σ.root = some i) : ByTurns own s t := by
  refine ⟨l ++ [.turn id τ], by rw [hj]; simp, fun e he i hi => ?_⟩
  rcases List.mem_append.mp he with he | he
  · rcases hl e he i hi with rfl | ⟨τ', hτ'⟩ | hσ
    · exact .inl ⟨τ, by simp⟩
    · exact .inl ⟨τ', List.mem_append_left _ hτ'⟩
    · exact .inr hσ
  · rw [List.mem_singleton.mp he] at hi
    exact absurd hi (by simp [Entry.Drives])

theorem starting (s : Stage) (id : Nat) (n : Notice) : ByTurns own s (s.starting id n) := by
  have hj : ∃ name b, (s.starting id n).journal =
      [.notified id name .started b, .moved id .started 0, .began id, .notice n] ++ s.journal := by
    rw [Stage.starting, Stage.journal_notify, Stage.journal_enlist]
    exact ⟨_, _, rfl⟩
  obtain ⟨name, b, hj⟩ := hj
  exact plain hj (by simp [Entry.Drives])

theorem restoring (s : Stage) (id index : Nat) : ByTurns own s (s.restoring id index) := by
  have hj : ∃ c b, (s.restoring id index).journal =
      [.moved id (.restored index) c, .restored id b] ++ s.journal := by
    rw [Stage.restoring, Stage.journal_enlist]
    exact ⟨_, _, rfl⟩
  obtain ⟨c, b, hj⟩ := hj
  exact plain hj (by simp [Entry.Drives])

/-- A stop is told, and nobody is driven by that. -/
theorem stopping (s : Stage) (id : Nat) (n : Notice) : ByTurns own s (s.ending id .stopped n) :=
  plain (l := [.notified id _ .stopped _, .notice n]) rfl (by simp [Entry.Drives])

theorem dropping (s : Stage) (id : Nat) : ByTurns own s (s.dropping id) :=
  plain (l := [.dropped id _]) rfl (by simp [Entry.Drives])

theorem sweep (s : Stage) (id : Nat) : ByTurns own s (s.sweep id) := of_eq (s.journal_sweep id)

/-- A turn in which nothing is done. -/
theorem note_turn (s : Stage) (id : Nat) (τ : Turn) : ByTurns own s (s.note (.turn id τ)) :=
  plain (l := [.turn id τ]) rfl (by simp [Entry.Drives])

theorem afterPlay (t : Stage) (id : Nat) (q : Sequence) (part : Part) (r : Except Halt Status) :
    ByTurns own t (t.afterPlay id q part r) := by
  cases r with
  | error e => exact of_eq rfl
  | ok status =>
    simp only [Stage.afterPlay, Stage.advancing]
    split
    · exact plain (l := [.moved id .settled (q.current + 1), .drove id status]) rfl
        (by simp [Entry.Drives])
    · exact plain (l := [.drove id status]) rfl (by simp [Entry.Drives])

theorem then_if (h : ByTurns own s t) (h' : ByTurns own t u) (calm : Bool) :
    ByTurns own s (if calm then u else t) := by
  cases calm with
  | true => exact h.trans h'
  | false => exact h

end ByTurns

/-- Along every course a sequence is driven only in its turns. -/
theorem Leads.byTurns {own : Site → Prop} {calm : Bool} {s t : Stage} (h : Leads own calm s t) :
    ByTurns own s t := by
  induction h with
  | aside h =>
    obtain ⟨l, hl, hr⟩ := h.journal
    exact .plain hl fun e he id => Entry.not_drives_of_isRemark (hr e he) id
  | halt _ ih => exact ih
  | trans _ _ ih ih' => exact ih.trans ih'
  | widen hw _ ih => exact ih.widen hw
  | @called own s σ c hσ =>
    refine ⟨[.called σ c], rfl, fun e he id hid => .inr ?_⟩
    rw [List.mem_singleton.mp he] at hid
    exact ⟨σ, Site.of_rooted hσ hid, hid⟩
  | returned s r _ => exact .plain (l := [.returned _ r]) rfl (by simp [Entry.Drives])
  | held s h _ => exact .of_eq rfl
  | registered resolve o _ => exact .of_eq rfl
  | registeredHeld _ _ => exact .of_eq rfl
  | checked s id => exact .of_eq rfl
  | paused s id f => exact .of_eq rfl
  | @started own s name id n _ _ => exact .starting s id n
  | @reset own s name id _ =>
    exact .plain (l := [.moved id .reset 0]) rfl (by simp [Entry.Drives])
  | @restored own s name id index _ => exact .restoring s id index
  | @stoppedIdle own s name id _ _ => exact .dropping s id
  | @stopped own calm s t name id n _ _ _ ih =>
    exact ((ByTurns.stopping s id n).trans ih).then_if (.dropping t id) calm
  | removedIdle _ _ => exact .of_eq rfl
  | @removed own calm s t name id n _ _ _ ih =>
    have hstop : ByTurns own s ((s.unregister name).ending id .stopped n) :=
      .stopping (s.unregister name) id n
    exact (hstop.trans ih).then_if (u := t.delist id) (.of_eq rfl) calm
  | @passed own s id _ => exact .note_turn s id .paused
  | @idle own s id _ _ => exact (ByTurns.note_turn s id .idle).trans (.sweep _ id)
  | @completed own calm s t id n _ _ _ ih =>
    obtain ⟨l, hl, hd⟩ := ih
    obtain ⟨name, b, hj⟩ : ∃ name b, t.journal =
        (l ++ [.notified id name .completed b, .notice n]) ++ .turn id .completed :: s.journal := by
      rw [hl]
      exact ⟨_, _, by rw [List.append_assoc]; rfl⟩
    have hst : ByTurns own s t := by
      apply ByTurns.turn hj
      intro e he i hi
      rcases List.mem_append.mp he with he | he
      · refine .inr ((hd e he i hi).imp_left ?_)
        rintro ⟨τ, hτ⟩
        exact ⟨τ, List.mem_append_left _ hτ⟩
      · rcases List.mem_cons.mp he with rfl | he
        · exact .inl hi.symm
        · rw [List.mem_singleton.mp he] at hi
          exact absurd hi (by simp [Entry.Drives])
    exact hst.then_if (.sweep t id) calm
  | @busy own s id _ _ _ => exact (ByTurns.note_turn s id .busy).trans (.sweep _ id)
  | @driven own s t id part run dt r p _ _ _ _ _ _ _ ih =>
    obtain ⟨l, hl, hd⟩ := ih
    have hst : ByTurns own s t := by
      apply ByTurns.turn hl
      intro e he i hi
      rcases hd e he i hi with hτ | ⟨σ, hσ, hr⟩
      · exact .inr (.inl hτ)
      · -- the sites of the step that is played with are all in the sequence
        rw [hσ.root_eq] at hr
        exact .inl (Option.some.inj hr).symm
    have hback := hst.trans (.afterPlay t id (s.sequence id) ⟨part.step, p⟩ r)
    exact hback.then_if (.sweep _ id) r.isOk

/-! Whoever runs is registered -/

def Stage.Enrolled (s : Stage) : Prop :=
  ∀ id, (s.sequence id).running = true → s.Registered id

namespace Stage.Enrolled

variable {s t : Stage} {id : Nat}

theorem of_registry (h : s.Enrolled) (hr : t.registry = s.registry)
    (hq : ∀ i, (t.sequence i).running = true → (s.sequence i).running = true ∨ s.Registered i) :
    t.Enrolled := by
  intro i hi
  have hreg : s.Registered i := (hq i hi).elim (h i) fun hr => hr
  obtain ⟨name, hf⟩ := hreg
  exact ⟨name, by simpa only [Stage.find?, hr] using hf⟩

theorem of_same (h : s.Enrolled) (hr : t.registry = s.registry)
    (hq : ∀ i, (t.sequence i).running = (s.sequence i).running) : t.Enrolled :=
  h.of_registry hr fun i hi => .inl ((hq i).symm.trans hi)

theorem modify (h : s.Enrolled) (id : Nat) {f : Sequence → Sequence}
    (hf : ∀ q, (f q).running = q.running) : (s.modify id f).Enrolled :=
  h.of_same rfl fun i => s.field_modify (·.running) hf id i

/-- A registered sequence may be set running. -/
theorem setting (h : s.Enrolled) (hr : t.registry = s.registry) (hid : s.Registered id)
    (hq : ∀ i, i ≠ id → t.sequence i = s.sequence i) : t.Enrolled := by
  refine h.of_registry hr fun i hi => ?_
  by_cases hne : i = id
  · rw [hne]
    exact .inr hid
  · rw [hq i hne] at hi
    exact .inl hi

theorem enroll (h : s.Enrolled) {q : Sequence} (hq : q.running = false)
    (hn : s.find? q.name = none) : (s.enroll q).Enrolled := by
  intro i hi
  rw [Stage.sequence_enroll] at hi
  split at hi
  · rw [hq] at hi
    exact absurd hi (by simp)
  · obtain ⟨name, hf⟩ := h i hi
    refine ⟨name, ?_⟩
    rw [Stage.find?_enroll, if_neg ?_]
    · exact hf
    · rintro rfl
      rw [hn] at hf
      exact absurd hf (by simp)

theorem running_ending (s : Stage) (id : Nat) (hook : Hook) (n : Notice) {i : Nat}
    (hi : ((s.ending id hook n).sequence i).running = true) :
    i ≠ id ∧ (s.sequence i).running = true := by
  rw [Stage.ending, Stage.sequence_notify, Stage.sequence_note] at hi
  rcases s.sequence_modify_cases id i Sequence.ended with ⟨rfl, hl, h⟩ | ⟨hne, h⟩
  · rw [h] at hi
    exact absurd hi (by simp [Sequence.ended])
  · rw [h] at hi
    refine ⟨?_, hi⟩
    rintro rfl
    have hlt := s.lt_of_running hi
    omega

theorem ending (h : s.Enrolled) (id : Nat) (hook : Hook) (n : Notice) :
    (s.ending id hook n).Enrolled :=
  h.of_registry rfl fun _ hi => .inl (running_ending s id hook n hi).2

/-- A sequence that leaves the registry does not run any more. -/
theorem unregister (h : s.Enrolled) {name : String} (hn : s.find? name = some id)
    (hq : ∀ i, (t.sequence i).running = true → i ≠ id ∧ (s.sequence i).running = true)
    (hr : t.registry = (s.unregister name).registry) : t.Enrolled := by
  intro i hi
  obtain ⟨hne, hrun⟩ := hq i hi
  obtain ⟨n, hf⟩ := h i hrun
  refine ⟨n, ?_⟩
  have hfind : t.find? n = (s.unregister name).find? n := by simp only [Stage.find?, hr]
  rw [hfind, Stage.find?_unregister, if_neg ?_]
  · exact hf
  · rintro rfl
    rw [hn] at hf
    exact hne (Option.some.inj hf).symm

theorem sweep (h : s.Enrolled) (id : Nat) : (s.sweep id).Enrolled :=
  h.of_same (by simp) fun i => by simp

theorem lending (h : s.Enrolled) (id : Nat) : (s.lending id).Enrolled := by
  have hnoted : (s.note (.turn id .driven)).Enrolled := h
  have hentered := hnoted.modify id (f := fun q => { q with entered := true }) fun _ => rfl
  exact hentered.modify id fun _ => rfl

theorem afterPlay (h : s.Enrolled) (id : Nat) (q : Sequence) (part : Part)
    (r : Except Halt Status) : (s.afterPlay id q part r).Enrolled := by
  have hr : (s.returning id q.current part).Enrolled := h.modify id fun _ => rfl
  cases r with
  | error e => exact hr
  | ok status =>
    simp only [Stage.afterPlay, Stage.advancing]
    split
    · exact modify (s := (s.returning id q.current part).note (.drove id status)) hr id fun _ => rfl
    · exact hr

theorem then_if (h : s.Enrolled) (h' : s.Enrolled → t.Enrolled) (calm : Bool) :
    Stage.Enrolled (if calm then t else s) := by
  cases calm with
  | true => exact h' h
  | false => exact h

end Stage.Enrolled

/-- No course has a sequence run that is not registered. -/
theorem Leads.enrolled {own : Site → Prop} {calm : Bool} {s t : Stage} (h : Leads own calm s t)
    (hs : s.Sound) (he : s.Enrolled) : t.Enrolled := by
  induction h with
  | aside h => exact he.of_same h.registry fun i => by rw [h.sequence]
  | halt _ ih => exact ih hs he
  | trans h _ ih ih' => exact ih' (h.lasts hs).1 (ih hs he)
  | widen _ _ ih => exact ih hs he
  | called s c _ => exact he
  | returned s r _ => exact he
  | held s h _ => exact he
  | registered resolve o hn => exact he.enroll rfl hn
  | @registeredHeld own s slot q hq hn =>
    obtain ⟨resolve, o, rfl⟩ := hs.held slot q hq
    exact Stage.Enrolled.enroll (s := { s with held := s.held.erase slot }) he rfl hn
  | checked s id => exact he.modify id fun _ => rfl
  | paused s id f => exact he.modify id fun _ => rfl
  | @started own s name id n hn _ =>
    exact he.setting (by simp [Stage.starting]) ⟨name, hn⟩ fun i hi => by
      simp [Stage.starting, s.sequence_modify_ne _ hi]
  | @reset own s name id _ => exact he.modify id fun _ => rfl
  | @restored own s name id index hn =>
    exact he.setting (by simp [Stage.restoring]) ⟨name, hn⟩ fun i hi => by
      simp [Stage.restoring, s.sequence_modify_ne _ hi]
  | stoppedIdle _ _ => exact he
  | @stopped own calm s t name id n hn _ _ ih =>
    have ht := ih (hs.ending id .stopped n) (he.ending id .stopped n)
    exact ht.then_if (t := t.dropping id) (fun h => h) calm
  | @removedIdle own s name id hn hr =>
    refine he.unregister hn (fun i hi => ⟨?_, hi⟩) rfl
    rintro rfl
    rw [show ((s.unregister name).delist i).sequence i = s.sequence i from rfl, hr] at hi
    exact absurd hi (by simp)
  | @removed own calm s t name id n hn _ _ ih =>
    have hu : ((s.unregister name).ending id .stopped n).Enrolled :=
      he.unregister hn (fun i hi =>
        Stage.Enrolled.running_ending (s.unregister name) id .stopped n hi) rfl
    have ht := ih ((hs.unregister name).ending id .stopped n) hu
    exact ht.then_if (t := t.delist id) (fun h => h) calm
  | passed _ => exact he
  | @idle own s id _ _ => exact Stage.Enrolled.sweep (s := s.note (.turn id .idle)) he id
  | @completed own calm s t id n _ _ _ ih =>
    have hu : ((s.note (.turn id .completed)).ending id .completed n).Enrolled :=
      Stage.Enrolled.ending (s := s.note (.turn id .completed)) he id .completed n
    have ht := ih ((hs.note _).ending id .completed n) hu
    exact ht.then_if (fun h => h.sweep id) calm
  | @busy own s id _ _ _ => exact Stage.Enrolled.sweep (s := s.note (.turn id .busy)) he id
  | @driven own s t id part run dt r p _ _ _ _ _ _ _ ih =>
    have ht := ih (hs.lending id) (he.lending id)
    have hback := ht.afterPlay id (s.sequence id) ⟨part.step, p⟩ r
    exact hback.then_if (fun h => h.sweep id) r.isOk

theorem Stage.opening_enrolled (settings : Settings) (host : Host) :
    (Stage.opening settings host).Enrolled := by
  intro id hid
  rw [sequence_opening] at hid
  exact absurd hid (by simp)

/-! Turns belong to frames -/

def anyBarrier : BarrierFact := fun _ _ _ _ => True

mutual

theorem Step.holds_any : (x : Step Command) → (b : Board) → (p : x.Progress) →
    x.Holds anyBarrier b p
  | .barrier _ _, _, _ => trivial
  | .choose _ yes no, b, p => ⟨holdsChildren_any yes b p.yes.children,
      holdsChildren_any no b p.no.children⟩
  | .bounded _ _ steps, b, p => holdsChildren_any steps b p.body.children
  | .retry _ steps, b, p => holdsChildren_any steps b p.body.children
  | .group steps, b, p => holdsChildren_any steps b p.children
  | .parallel _ steps, b, p => holdsLanes_any steps b p
  | .wait _, _, _ => trivial
  | .frames _, _, _ => trivial
  | .publish _, _, _ => trivial
  | .invoke _ _, _, _ => trivial
  | .component _ _ _, _, _ => trivial
  | .call _, _, _ => trivial
  | .startSequence _, _, _ => trivial
  | .stopSequence _, _, _ => trivial
  | .tween _, _, _ => trivial
  | .await _ _ _, _, _ => trivial
  | .probe _ _, _, _ => trivial
  | .custom _ _ _ _, _, _ => trivial

theorem holdsChildren_any : (l : List (Step Command)) → (b : Board) → (p : Children l) →
    holdsChildren anyBarrier l b p
  | [], _, _ => trivial
  | x :: rest, b, p => ⟨x.holds_any b p.1, holdsChildren_any rest b p.2⟩

theorem holdsLanes_any : (l : List (Step Command)) → (b : Board) → (p : Lanes l) →
    holdsLanes anyBarrier l b p
  | [], _, _ => trivial
  | x :: rest, b, p => ⟨x.holds_any b p.1.child, holdsLanes_any rest b p.2⟩

end

theorem Stage.holds_any (s : Stage) : s.Holds anyBarrier where
  sequences _ part _ := part.step.holds_any s.barriers part.progress
  held _ h _ := by
    cases h with
    | part p => exact p.step.holds_any s.barriers p.progress
    | track t => exact holdsChildren_any t.steps s.barriers t.track.children
    | sequence q => exact fun part _ => part.step.holds_any s.barriers part.progress

/-- No sequence is ever lost and no count is ever lowered, whatever else is in the books. -/
theorem anything : Ledger anyBarrier fun _ _ _ => True := by
  constructor <;> intros <;> trivial

theorem Session.later {calm : Bool} {s t : Stage} (h : Session calm s t) : s.Later t :=
  (h.fair anything (fun _ _ _ => trivial) s.holds_any).later

def TurnsByTicks (ok : Bool) (s t : Stage) : Prop := ok = true → ∃ l, t.journal = l ++ s.journal ∧
  ((∃ e ∈ l, e.isTicked = true) ∨ ∀ e ∈ l, e.turnId? = none)

theorem TurnsByTicks.plain {s t : Stage} {l : List Entry} (hj : t.journal = l ++ s.journal)
    (hl : ∀ e ∈ l, e.turnId? = none) : TurnsByTicks true s t := fun _ => ⟨l, hj, .inr hl⟩

theorem TurnsByTicks.trans {ok ok' : Bool} {s t u : Stage} (h : TurnsByTicks ok s t)
    (h' : TurnsByTicks ok' t u) : TurnsByTicks (ok && ok') s u := by
  intro hok
  obtain ⟨hok, hok'⟩ := (Bool.and_eq_true _ _).mp hok
  obtain ⟨l, hl, hd⟩ := h hok
  obtain ⟨l', hl', hd'⟩ := h' hok'
  refine ⟨l' ++ l, by rw [hl', hl, List.append_assoc], ?_⟩
  rcases hd with ⟨e, he, ht⟩ | hd
  · exact .inl ⟨e, List.mem_append_right _ he, ht⟩
  rcases hd' with ⟨e, he, ht⟩ | hd'
  · exact .inl ⟨e, List.mem_append_left _ he, ht⟩
  · exact .inr fun e he => (List.mem_append.mp he).elim (hd' e) (hd e)

theorem TurnsByTicks.answering (s : Stage) (σ : Site) (dt : Float32) (said : Option Notice)
    (status : Status) : TurnsByTicks true s (s.answering σ dt said status) := by
  cases said with
  | none =>
    apply TurnsByTicks.plain (l := [.returned σ (some status), .called σ (.tick dt)]) rfl
    simp [Entry.turnId?]
  | some n =>
    apply TurnsByTicks.plain
      (l := [.returned σ (some status), .notice n, .called σ (.tick dt)]) rfl
    simp [Entry.turnId?]

end Sequencer
