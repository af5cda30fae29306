import Sequencer.Proofs.Activation.Steps
import Sequencer.Proofs.Cursor

/-!
# The calls of a step are activations

A sequence that is not ticking has no call of its steps open, and what its cursor and its flags
say of the step at the cursor agrees with the calls that step got. Every course keeps this up,
however callbacks nest, since they leave a sequence that is ticking to its tick. So between
commands of the host the calls that any step ever got are whole activations.
-/

set_option autoImplicit false

namespace Sequencer

open Site (Nowhere Within Below)

theorem Entry.site?_of_isRemark {e : Entry} (h : e.isRemark = true) : e.site? = none := by
  cases e <;> first | rfl | simp [isRemark] at h

def Sequence.Live (id : Nat) (q : Sequence) (φ : Phases) : Prop :=
  q.entered = true → ∀ part, q.parts[q.current]? = some part →
    φ (.top id q.current) = .underway ∧ part.step.Live (.top id q.current) part.progress φ

structure Stage.Settled (s : Stage) (id : Nat) : Prop where
  quiet : ∀ σ, (phases id s.journal σ).IsQuiet
  live : (s.sequence id).Live id (phases id s.journal)

theorem Stage.Settled.of_same {s t : Stage} {id : Nat} (h : s.Settled id)
    (hs : t.sequence id = s.sequence id) (hφ : phases id t.journal = phases id s.journal) :
    t.Settled id := by
  constructor
  · rw [hφ]
    exact h.quiet
  · rw [hs, hφ]
    exact h.live

def Stage.Orderly (s : Stage) : Prop := ∀ id, (s.sequence id).ticking = false → s.Settled id

structure Undisturbed (s t : Stage) : Prop where
  ticking : ∀ id, (t.sequence id).ticking = (s.sequence id).ticking
  entered : ∀ id, (t.sequence id).entered = true → (s.sequence id).entered = true ∧
    (t.sequence id).current = (s.sequence id).current ∧
    (t.sequence id).parts = (s.sequence id).parts
  journal : ∃ l, t.journal = l ++ s.journal ∧ ∀ e ∈ l, ∀ σ id, e.site? = some σ →
    σ.root = some id → (s.sequence id).ticking = true

namespace Undisturbed

variable {s t u : Stage}

theorem of_same (hs : t.sequences = s.sequences) (hj : t.journal = s.journal) :
    Undisturbed s t := by
  have h : ∀ id, t.sequence id = s.sequence id := fun id => by simp only [Stage.sequence, hs]
  constructor
  · intro id
    rw [h]
  · intro id he
    rw [h] at he ⊢
    exact ⟨he, rfl, rfl⟩
  · exact ⟨[], hj, by simp⟩

theorem refl (s : Stage) : Undisturbed s s := of_same rfl rfl

theorem trans (h : Undisturbed s t) (h' : Undisturbed t u) : Undisturbed s u where
  ticking id := (h'.ticking id).trans (h.ticking id)
  entered id he := by
    obtain ⟨he, hc, hp⟩ := h'.entered id he
    obtain ⟨he', hc', hp'⟩ := h.entered id he
    exact ⟨he', hc.trans hc', hp.trans hp'⟩
  journal := by
    obtain ⟨l, hl, hs⟩ := h.journal
    obtain ⟨l', hl', hs'⟩ := h'.journal
    refine ⟨l' ++ l, by rw [hl', hl, List.append_assoc], fun e he σ id hσ hr => ?_⟩
    rcases List.mem_append.mp he with he | he
    · rw [← h.ticking id]
      exact hs' e he σ id hσ hr
    · exact hs e he σ id hσ hr

theorem noteCall (h : Undisturbed s t) {e : Entry} (he : ∀ σ id, e.site? = some σ →
    σ.root = some id → (t.sequence id).ticking = true) : Undisturbed s (t.note e) := by
  apply h.trans
  constructor
  · exact fun _ => rfl
  · exact fun _ he => ⟨he, rfl, rfl⟩
  · refine ⟨[e], rfl, fun e' he' => ?_⟩
    rw [List.mem_singleton.mp he']
    exact he

theorem note (h : Undisturbed s t) {e : Entry} (he : e.site? = none) :
    Undisturbed s (t.note e) := by
  apply h.noteCall
  intro σ id hσ
  rw [he] at hσ
  exact absurd hσ (by simp)

theorem aside (h : Aside s t) : Undisturbed s t := by
  obtain ⟨l, hl, hr⟩ := h.journal
  constructor
  · intro id
    rw [h.sequence]
  · intro id he
    rw [h.sequence] at he ⊢
    exact ⟨he, rfl, rfl⟩
  · refine ⟨l, hl, fun e he σ id hσ => ?_⟩
    rw [Entry.site?_of_isRemark (hr e he)] at hσ
    exact absurd hσ (by simp)

theorem modify (h : Undisturbed s t) (id : Nat) {f : Sequence → Sequence}
    (hp : ∀ q, (f q).parts = q.parts) (ht : ∀ q, (f q).ticking = q.ticking)
    (he : ∀ q, (f q).entered = true → q.entered = true ∧ (f q).current = q.current) :
    Undisturbed s (t.modify id f) := by
  apply h.trans
  constructor
  · exact fun i => t.field_modify (·.ticking) ht id i
  · intro i hi
    have hparts := t.field_modify (·.parts) hp id i
    rcases t.sequence_modify_cases id i f with ⟨-, -, hf⟩ | ⟨-, hf⟩
    · rw [hf] at hi
      obtain ⟨hentered, hcurrent⟩ := he _ hi
      exact ⟨hentered, by rw [hf, hcurrent], hparts⟩
    · rw [hf] at hi
      exact ⟨hi, by rw [hf], hparts⟩
  · exact ⟨[], rfl, by simp⟩

theorem enroll (h : Undisturbed s t) {q : Sequence} (ht : q.ticking = false)
    (he : q.entered = false) : Undisturbed s (t.enroll q) := by
  apply h.trans
  constructor
  · intro id
    rw [Stage.sequence_enroll]
    split
    · next hid => rw [ht, t.sequence_of_length_le (by omega)]
    · rfl
  · intro id hid
    rw [Stage.sequence_enroll] at hid ⊢
    split at hid
    · rw [he] at hid
      exact absurd hid (by simp)
    · next hne =>
      rw [if_neg hne]
      exact ⟨hid, rfl, rfl⟩
  · exact ⟨[], rfl, by simp⟩

theorem enlist (h : Undisturbed s t) (id : Nat) : Undisturbed s (t.enlist id) :=
  h.trans (of_same (t.sequences_enlist id) (t.journal_enlist id))

theorem delist (h : Undisturbed s t) (id : Nat) : Undisturbed s (t.delist id) :=
  h.trans (of_same rfl rfl)

theorem unregister (s : Stage) (name : String) : Undisturbed s (s.unregister name) :=
  of_same rfl rfl

theorem sweep (h : Undisturbed s t) (id : Nat) : Undisturbed s (t.sweep id) := by
  unfold Stage.sweep
  split
  · exact h
  · exact h.delist id

theorem ending (s : Stage) (id : Nat) (hook : Hook) (n : Notice) :
    Undisturbed s (s.ending id hook n) := by
  have hq : Undisturbed s (s.modify id Sequence.ended) :=
    (refl s).modify id (fun _ => rfl) (fun _ => rfl) nofun
  have hn : Undisturbed s ((s.modify id Sequence.ended).note (.notice n)) := hq.note rfl
  exact hn.note rfl

theorem starting (s : Stage) (id : Nat) (n : Notice) : Undisturbed s (s.starting id n) := by
  have hq : Undisturbed s (s.modify id Sequence.begun) :=
    (refl s).modify id (fun _ => rfl) (fun _ => rfl) nofun
  have hn : Undisturbed s ((((s.modify id Sequence.begun).note (.notice n)).note
      (.began id)).note (.moved id .started 0)) :=
    ((hq.note rfl).note rfl).note rfl
  exact (hn.enlist id).note rfl

theorem rewinding (s : Stage) (id : Nat) : Undisturbed s (s.rewinding id) := by
  have hq : Undisturbed s (s.modify id Sequence.rewound) :=
    (refl s).modify id (fun _ => rfl) (fun _ => rfl) nofun
  exact hq.note rfl

theorem restoring (s : Stage) (id index : Nat) : Undisturbed s (s.restoring id index) := by
  have hq : Undisturbed s (s.modify id (Sequence.resumed index)) :=
    (refl s).modify id (fun _ => rfl) (fun _ => rfl) nofun
  have hn : Undisturbed s ((s.modify id (Sequence.resumed index)).note
      (.restored id (s.sequence id).running)) := hq.note rfl
  exact (hn.note rfl).enlist id

theorem dropping (h : Undisturbed s t) (id : Nat) : Undisturbed s (t.dropping id) :=
  (h.note rfl).delist id

theorem settled (h : Undisturbed s t) {id : Nat} (hs : s.Settled id)
    (ht : (s.sequence id).ticking = false) : t.Settled id := by
  obtain ⟨l, hl, hcalls⟩ := h.journal
  have hφ : phases id t.journal = phases id s.journal := by
    rw [hl]
    apply phases_append_foreign
    intro e he σ hσ hr
    have hticking := hcalls e he σ id hσ hr
    rw [ht] at hticking
    exact absurd hticking (by simp)
  constructor
  · rw [hφ]
    exact hs.quiet
  · intro he
    obtain ⟨he', hc, hp⟩ := h.entered id he
    rw [hc, hp, hφ]
    exact hs.live he'

end Undisturbed

/-- A step stays where it stands as long as sequences keep their steps. -/
theorem Stage.step?_of_steps {s t : Stage} (h : ∀ id, id < s.sequences.length →
    (t.sequence id).steps = (s.sequence id).steps) :
    (σ : Site) → (x : Step Command) → s.step? σ = some x → t.step? σ = some x
  | .top id index, x, hx => by
    have hid : id < s.sequences.length := by
      by_cases hid : id < s.sequences.length
      · exact hid
      · rw [step?, s.sequence_of_length_le (by omega)] at hx
        exact absurd hx (by simp [Sequence.steps])
    rw [step?, h id hid]
    exact hx
  | .held _, _, hx => hx
  | .child τ i, x, hx => by
    obtain ⟨y, hy, hx⟩ := Option.bind_eq_some_iff.mp hx
    rw [step?_child (step?_of_steps h τ y hy)]
    exact hx
  | .otherwise τ i, x, hx => by
    obtain ⟨y, hy, hx⟩ := Option.bind_eq_some_iff.mp hx
    rw [step?_otherwise (step?_of_steps h τ y hy)]
    exact hx

theorem Stage.step?_top {s : Stage} {id index : Nat} {part : Part}
    (h : (s.sequence id).parts[index]? = some part) :
    s.step? (.top id index) = some part.step := by
  rw [step?, Sequence.steps, List.getElem?_map, h]
  rfl

theorem Stage.step?_of_root_none {s : Stage} {σ : Site} (h : σ.root = none) :
    s.step? σ = none := by
  induction σ with
  | top id index => exact absurd h (by simp [Site.root])
  | held slot => rfl
  | child τ i ih => rw [step?, ih h]; rfl
  | otherwise τ i ih => rw [step?, ih h]; rfl

def Stage.Free (s : Stage) (σ : Site) : Prop :=
  ∃ id, σ.root = some id ∧ (s.sequence id).ticking = false

def Stage.Lent (s : Stage) (own : Site → Prop) : Prop :=
  ∀ σ id, own σ → σ.root = some id → (s.sequence id).ticking = true

theorem Stage.lending_lent (s : Stage) {id : Nat} (hid : id < s.sequences.length) (index : Nat) :
    (s.lending id).Lent (Within (.top id index)) := by
  intro σ i hσ hr
  rw [hσ.root_eq] at hr
  obtain rfl := Option.some.inj hr
  rw [s.sequence_lending_self hid]

theorem Stage.Lent.extends {s t : Stage} {own own' : Site → Prop} (h : s.Lent own)
    (he : Extends own' s t) : t.Lent own :=
  fun σ id hσ hr => (he.ticking id).trans (h σ id hσ hr)

structure Regular (s t : Stage) : Prop where
  orderly : t.Orderly
  lawful : ∃ l, t.journal = l ++ s.journal ∧ Lawful t.step? s.Free l s.journal

namespace Regular

variable {s t u : Stage} {own own' : Site → Prop}

theorem of_undisturbed (ho : s.Orderly) (h : Undisturbed s t) : Regular s t := by
  constructor
  · intro id ht
    have hs : (s.sequence id).ticking = false := (h.ticking id).symm.trans ht
    exact h.settled (ho id hs) hs
  · obtain ⟨l, hl, hcalls⟩ := h.journal
    refine ⟨l, hl, .of_silent ?_⟩
    rintro e he σ hσ ⟨id, hr, hfree⟩
    rw [hcalls e he σ id hσ hr] at hfree
    exact absurd hfree (by simp)

theorem trans (h : Regular s t) (h' : Regular t u) (he : Extends own s t)
    (he' : Extends own' t u) : Regular s u := by
  obtain ⟨l, hl, hlaw⟩ := h.lawful
  obtain ⟨l', hl', hlaw'⟩ := h'.lawful
  refine ⟨h'.orderly, l' ++ l, by rw [hl', hl, List.append_assoc], ?_⟩
  have hfirst : Lawful u.step? s.Free l s.journal :=
    hlaw.weaken (Stage.step?_of_steps he'.steps)
  have hsecond : Lawful u.step? s.Free l' (l ++ s.journal) := by
    rw [← hl]
    apply hlaw'.mono
    rintro σ ⟨id, hr, hfree⟩
    exact ⟨id, hr, (he.ticking id).trans hfree⟩
  exact hfirst.append hsecond

end Regular

def Steady {π : Type} (σ : Site) (L : π → Phases → Prop) (going : Prop) (p : π) (φ : Phases) :
    Prop := (∀ τ, (φ τ).IsQuiet) ∧ (going → Going σ L p φ)

/-- A frame of the step at the cursor of a sequence. -/
theorem Conductor.playPart_meets {run : Runner} (hrun : run.Follows) (dt : Float32) {u : Stage}
    (id : Nat) (q : Sequence) {part : Part}
    (hstep : u.step? (.top id q.current) = some part.step) :
    Play.Meets u.step? id
      (fun p j => Steady (.top id q.current) (part.step.Live (.top id q.current))
        (q.entered = true) p (phases id j))
      (playPart run dt id q part)
      fun status p j => Steady (.top id q.current) (part.step.Live (.top id q.current))
        (status.isRunning = true) p (phases id j) := by
  let cue : Cue := { owner := q.name, site := .top id q.current }
  have hdrive : Play.Meets u.step? id
      (cue.Between id (part.step.Live cue.site) ((!q.entered) = false))
      (playPart run dt id q part)
      fun status => cue.Between id (part.step.Live cue.site) (status.isRunning = true) :=
    Cue.drive_meets rfl (fun p φ ψ => Step.Live.congr part.step cue.site p)
      (Step.enter_follows hrun part.step cue) (Step.tick_follows hrun part.step cue)
      (Step.exit_follows hrun part.step cue) (Step.enter_meets hrun part.step cue rfl)
      (Step.tick_meets hrun part.step cue rfl hstep)
  have hkept := hdrive.frame (playPart_follows hrun dt id q part)
    (B := fun φ => ∀ σ, ¬ cue.site.Within σ → (φ σ).IsQuiet)
    fun φ ψ hs hφ σ hσ => by rw [hs σ hσ]; exact hφ σ hσ
  apply hkept.mono
  · rintro p j ⟨hq, hlive⟩
    refine ⟨⟨hq _, fun σ _ => hq σ, fun he => hlive ?_⟩, fun σ _ => hq σ⟩
    simpa using he
  · rintro status p j ⟨⟨hq, hr, hlive⟩, helse⟩
    refine ⟨fun σ => ?_, hlive⟩
    by_cases hσ : cue.site.Within σ
    · rcases hσ.eq_or_below with rfl | hσ
      · exact hq
      · exact hr σ hσ
    · exact helse σ hσ

namespace Stage

variable (s : Stage) (id : Nat) (q : Sequence) (part : Part) (status : Status)

theorem phases_lending (i : Nat) : phases i (s.lending id).journal = phases i s.journal := by
  rw [journal_lending]
  funext σ
  exact phases_cons_ne (by simp [Entry.site?]) _

theorem calls_afterPlay (r : Except Halt Status) :
    ∃ l, (s.afterPlay id q part r).journal = l ++ s.journal ∧ ∀ e ∈ l, e.site? = none := by
  cases r with
  | error e => exact ⟨[], rfl, by simp⟩
  | ok status =>
    simp only [afterPlay, advancing]
    split
    · exact ⟨[.moved id .settled (q.current + 1), .drove id status], rfl, by simp [Entry.site?]⟩
    · exact ⟨[.drove id status], rfl, by simp [Entry.site?]⟩

theorem phases_afterPlay (i : Nat) :
    phases i (s.afterPlay id q part (.ok status)).journal = phases i s.journal := by
  obtain ⟨l, hl, hsilent⟩ := s.calls_afterPlay id q part (.ok status)
  rw [hl]
  apply phases_append_foreign
  intro e he σ hσ
  rw [hsilent e he] at hσ
  exact absurd hσ (by simp)

/-- If the step still counts as entered, its sequence did not move on from it. -/
theorem entered_afterPlay {id : Nat} (hid : id < s.sequences.length)
    (h : ((s.afterPlay id q part (.ok status)).sequence id).entered = true) :
    (s.sequence id).entered = true ∧
      ¬ (status.isTerminal = true ∧ (s.sequence id).generation = q.generation) ∧
      ((s.afterPlay id q part (.ok status)).sequence id).current = (s.sequence id).current ∧
      ((s.afterPlay id q part (.ok status)).sequence id).parts =
        (s.sequence id).parts.set q.current part := by
  have hback : ((s.returning id q.current part).note (.drove id status)).sequence id =
      { (s.sequence id).withPart q.current part with ticking := false } :=
    s.sequence_modify_self _ hid
  have hlt : id < ((s.returning id q.current part).note (.drove id status)).sequences.length := by
    simpa [returning] using hid
  simp only [afterPlay, advancing] at h ⊢
  split at h
  · rw [sequence_note, sequence_modify_self _ _ hlt] at h
    exact absurd h (by simp [Sequence.advanced])
  · next hstay =>
    rw [if_neg hstay]
    rw [hback] at h hstay ⊢
    exact ⟨h, hstay, rfl, rfl⟩

end Stage

section

variable {run : Runner} {dt : Float32} {s t : Stage} {id : Nat} {part : Part}
  {p : part.step.Progress} {status : Status}

/-- While a step is lent its sequence owes nothing, and the others owe what they did. -/
theorem Stage.Orderly.lending (ho : s.Orderly) (hid : id < s.sequences.length) :
    (s.lending id).Orderly := by
  intro i hi
  have hne : i ≠ id := by
    rintro rfl
    rw [s.sequence_lending_self hid] at hi
    exact absurd hi (by simp)
  rw [s.sequence_lending_ne hne] at hi
  exact (ho i hi).of_same (s.sequence_lending_ne hne) (s.phases_lending id i)

/-- What the play leaves of its sequence: no step of it is in a call, the one that was played with
is still under way if it runs on, and all of them got their calls when they might. -/
theorem Drive.leaves (hd : Drive run dt s id part (.ok status) p t) (hs : s.Sound)
    (ho : s.Orderly) {u : Stage}
    (htop : u.step? (.top id (s.sequence id).current) = some part.step) :
    Steady (.top id (s.sequence id).current) (part.step.Live (.top id (s.sequence id).current))
        (status.isRunning = true) p (phases id t.journal) ∧
      ∃ l, t.journal = l ++ (s.lending id).journal ∧
        Lawful u.step? (fun σ => σ.root = some id) l (s.lending id).journal := by
  have hplaying := hs.playing (s.lt_of_running hd.due.running)
  have hbefore := ho id hd.free
  have hready : Steady (.top id (s.sequence id).current)
      (part.step.Live (.top id (s.sequence id).current)) ((s.sequence id).entered = true)
      part.progress (phases id (s.lending id).journal) := by
    rw [s.phases_lending id id]
    exact ⟨hbefore.quiet, fun hentered => hbefore.live hentered part hd.cursor⟩
  exact (Conductor.playPart_meets hd.callbacks dt id (s.sequence id) htop part.progress
    (s.lending id) hplaying hready status p t hd.play).2

/-- A step that comes back is the one that was lent. -/
theorem Drive.steps_back (hd : Drive run dt s id part (.ok status) p t) (hs : s.Sound) (i : Nat) :
    ((t.afterPlay id (s.sequence id) ⟨part.step, p⟩ (.ok status)).sequence i).steps =
      (t.sequence i).steps := by
  have hid := s.lt_of_running hd.due.running
  have he := (hd.leads.lasts (hs.lending id)).2
  by_cases hne : i = id
  · subst hne
    have hall : Extends Nowhere s (t.afterPlay i (s.sequence i) ⟨part.step, p⟩ (.ok status)) :=
      .afterPlay hid hd.free hd.cursor he
    rw [hall.steps i hid, he.steps i (by rwa [s.length_lending]), s.sequence_lending_self hid]
    rfl
  · rw [t.sequence_afterPlay_ne id _ _ _ hne]

/-- A step that comes back leaves its sequence settled. If it still counts as entered then no one
moved the cursor meanwhile, so the step itself has not come to its end. -/
theorem Drive.settled (hd : Drive run dt s id part (.ok status) p t) (hs : s.Sound)
    (ho : s.Orderly) :
    (t.afterPlay id (s.sequence id) ⟨part.step, p⟩ (.ok status)).Settled id := by
  obtain ⟨⟨hquiet, hlive⟩, -⟩ := hd.leaves hs ho (Stage.step?_top hd.cursor)
  have he := (hd.leads.lasts (hs.lending id)).2
  obtain ⟨l, -, hspares, hrecord⟩ := hd.notes hs
  constructor
  · rw [t.phases_afterPlay]
    exact hquiet
  · intro hentered part' hpart'
    obtain ⟨hstill, hstay, hc, hparts⟩ := t.entered_afterPlay _ _ _ (hd.length he) hentered
    have hkept := Record.replay_entered (fun e hel => (hspares e hel).ne_driven)
      (by rw [← hrecord]; exact hstill)
    rw [← hrecord] at hkept
    have hcurrent : (t.sequence id).current = (s.sequence id).current := hkept.1
    have hgeneration : (t.sequence id).generation = (s.sequence id).generation := hkept.2
    have hrunning : status.isRunning = true := by
      by_cases hr : status.isRunning = true
      · exact hr
      · exact absurd ⟨by simpa [Status.isTerminal] using hr, hgeneration⟩ hstay
    have hlength : (s.sequence id).current < (t.sequence id).parts.length := by
      rw [hd.parts he]
      exact (List.getElem?_eq_some_iff.mp hd.cursor).1
    rw [hc, hcurrent, hparts, List.getElem?_set_self hlength] at hpart'
    obtain rfl := Option.some.inj hpart'
    rw [hc, hcurrent, t.phases_afterPlay]
    exact hlive hrunning

/-- A drive keeps order if what callbacks do in it does. -/
theorem Regular.driven (hs : s.Sound) (ho : s.Orderly)
    (hd : Drive run dt s id part (.ok status) p t) (ih : Regular (s.lending id) t) :
    Regular s (t.afterPlay id (s.sequence id) ⟨part.step, p⟩ (.ok status)) := by
  let v := t.afterPlay id (s.sequence id) ⟨part.step, p⟩ (.ok status)
  have hsteps : ∀ σ x, t.step? σ = some x → v.step? σ = some x :=
    Stage.step?_of_steps fun i _ => hd.steps_back hs i
  constructor
  · intro i hi
    by_cases hne : i = id
    · rw [hne]
      exact hd.settled hs ho
    · have hsame := t.sequence_afterPlay_ne id (s.sequence id) ⟨part.step, p⟩ (.ok status) hne
      rw [hsame] at hi
      exact (ih.orderly i hi).of_same hsame (t.phases_afterPlay _ _ _ _ i)
  · have he := (hd.leads.lasts (hs.lending id)).2
    have htop : v.step? (.top id (s.sequence id).current) = some part.step := by
      apply hsteps
      apply Stage.step?_of_steps he.steps
      apply Stage.step?_top
      rw [s.sequence_lending_self (s.lt_of_running hd.due.running)]
      exact hd.cursor
    obtain ⟨-, l, hl, hlaw⟩ := hd.leaves hs ho htop
    obtain ⟨l', hl', hlaw'⟩ := ih.lawful
    obtain rfl : l' = l := List.append_cancel_right (hl'.symm.trans hl)
    obtain ⟨n, hn, hsilent⟩ := t.calls_afterPlay id (s.sequence id) ⟨part.step, p⟩ (.ok status)
    have hturn : Lawful v.step? s.Free [.turn id .driven] s.journal := ⟨nofun, trivial⟩
    -- its own calls are lawful by the play, those of others by what callbacks do
    have hplay : Lawful v.step? s.Free l' (s.lending id).journal := by
      apply (hlaw.union (hlaw'.weaken hsteps)).mono
      rintro σ ⟨i, hr, hfree⟩
      by_cases hne : i = id
      · exact .inl (by rw [hr, hne])
      · exact .inr ⟨i, hr, by rw [s.sequence_lending_ne hne]; exact hfree⟩
    have hback : Lawful v.step? s.Free n (l' ++ [.turn id .driven] ++ s.journal) := by
      apply Lawful.of_silent
      intro e hel σ hσ
      rw [hsilent e hel] at hσ
      exact absurd hσ (by simp)
    refine ⟨n ++ (l' ++ [.turn id .driven]), ?_, (hturn.append hplay).append hback⟩
    rw [hn, hl, s.journal_lending]
    simp

end

theorem Incident.undisturbed {own : Site → Prop} {s t : Stage} (h : Incident own s t)
    (hs : s.Sound) (hown : s.Lent own) : Undisturbed s t := by
  cases h with
  | aside h => exact .aside h
  | @called σ c hσ =>
    apply (Undisturbed.refl s).noteCall
    intro τ id hτ hr
    obtain rfl := Option.some.inj hτ
    exact hown σ id (Site.of_rooted hσ hr) hr
  | @returned σ r hσ =>
    apply (Undisturbed.refl s).noteCall
    intro τ id hτ hr
    obtain rfl := Option.some.inj hτ
    exact hown σ id (Site.of_rooted hσ hr) hr
  | held h _ => exact .of_same rfl rfl
  | registered resolve o _ => exact .enroll (.refl s) rfl rfl
  | @registeredHeld slot q hq _ =>
    obtain ⟨resolve, o, rfl⟩ := hs.held slot q hq
    have herase : Undisturbed s { s with held := s.held.erase slot } := .of_same rfl rfl
    exact herase.enroll rfl rfl
  | checked id => exact .modify (.refl s) id (fun _ => rfl) (fun _ => rfl) fun _ h => ⟨h, rfl⟩
  | paused id f => exact .modify (.refl s) id (fun _ => rfl) (fun _ => rfl) fun _ h => ⟨h, rfl⟩
  | started n _ _ => exact .starting s _ n
  | reset _ => exact .rewinding s _
  | restored index _ => exact .restoring s _ index
  | ended n _ _ => exact .ending s _ _ n
  | dropped id => exact .dropping (.refl s) id
  | unregistered name => exact .unregister s name
  | delisted id => exact .delist (.refl s) id
  | swept id => exact .sweep (.refl s) id
  | turned _ => exact .note (.refl s) rfl

/-- Along every course in which nothing halts, steps get their calls when they may. -/
theorem Course.regular {own : Site → Prop} {calm : Bool} {s t : Stage} (h : Course own calm s t)
    (hcalm : calm = true) (hs : s.Sound) (ho : s.Orderly) (hown : s.Lent own) : Regular s t := by
  induction h with
  | single h => exact .of_undisturbed ho (h.undisturbed hs hown)
  | halt _ _ => exact absurd hcalm (by simp)
  | trans h h' ih ih' =>
    obtain ⟨hc, hc'⟩ := Bool.and_eq_true_iff.mp hcalm
    obtain ⟨ht, he⟩ := h.lasts hs
    have hfirst := ih hc hs ho hown
    exact hfirst.trans (ih' hc' ht hfirst.orderly (hown.extends he)) he (h'.lasts ht).2
  | widen hw _ ih =>
    apply ih hcalm hs ho
    intro σ id hσ hr
    exact hown σ id (Site.of_rooted (hw σ hσ) hr) hr
  | @driven own run dt s t id part r p hd _ ih =>
    have hid := s.lt_of_running hd.due.running
    have hcourse := ih hcalm (hs.lending id) (ho.lending hid) (s.lending_lent hid _)
    cases r with
    | error e => exact absurd hcalm (by simp [Except.isOk, Except.toBool])
    | ok status => exact .driven hs ho hd hcourse

theorem Stage.opening_orderly (settings : Settings) (host : Host) :
    (Stage.opening settings host).Orderly := by
  intro id _
  constructor
  · intro σ
    left
    simp [phases, opening, Phase.of]
  · intro hentered
    rw [sequence_opening] at hentered
    exact absurd hentered (by simp)

/-- If nothing panics all the calls that steps of sequences ever got came when they might. -/
theorem Session.lawful {settings : Settings} {host : Host} {s : Stage}
    (h : Session true (.opening settings host) s) :
    Lawful s.step? (fun σ => ∃ id, σ.root = some id) s.journal [] := by
  have hregular := h.leads.course.regular rfl (Stage.opening_sound settings host)
    (Stage.opening_orderly settings host) nofun
  obtain ⟨l, hl, hlaw⟩ := hregular.lawful
  have hnil : (Stage.opening settings host).journal = [] := rfl
  rw [hnil, List.append_nil] at hl
  rw [hnil, ← hl] at hlaw
  apply hlaw.mono
  rintro σ ⟨id, hr⟩
  exact ⟨id, hr, by rw [Stage.sequence_opening]⟩

/-- Whatever a sequence is built of and whatever callbacks do: between commands of the host the
calls that one of its steps ever got are activations, one after the other. A step is exited when
its last answer was that it is done, or else as the child under way of a step that bounds the
time of its children and finds that it has run over. -/
theorem calls_are_activations {settings : Settings} {host : Host} {s : Stage}
    (h : Session true (.opening settings host) s) {σ : Site} {id : Nat} (hσ : σ.root = some id) :
    (∃ acts : List Activation,
      (callsAt σ s.journal).reverse = acts.flatMap (Activation.entries σ)) ∧
    ∀ l j, s.journal = l ++ .called σ .exit :: j →
      (∃ status, status.isTerminal = true ∧
        (callsAt σ j).head? = some (.returned σ (some status))) ∨
      Phase.of σ j = .underway ∧ CutShort s.step? σ j := by
  have hopening : (Stage.opening settings host).Free σ :=
    ⟨id, hσ, by rw [Stage.sequence_opening]⟩
  have hregular := h.leads.course.regular rfl (Stage.opening_sound settings host)
    (Stage.opening_orderly settings host) nofun
  obtain ⟨l, hl, hlaw⟩ := hregular.lawful
  have hnil : (Stage.opening settings host).journal = [] := rfl
  rw [hnil, List.append_nil] at hl
  rw [hnil, ← hl] at hlaw
  constructor
  · have hshape := Phase.shape_of hopening s.journal hlaw
    apply hshape.whole
    have hquiet := (hregular.orderly id (h.resting id)).quiet σ
    rwa [phases_root hσ] at hquiet
  · intro l' j hj
    rw [hj] at hlaw
    have hexit := hlaw.allowed rfl hopening
    rw [List.append_nil] at hexit
    rcases hexit with hsettled | hcut
    · exact .inl (Phase.answered_of_settled hsettled)
    · exact .inr hcut

/-- A reset abandons a step under way; the next time the step is entered again, and ticked until
it settles. -/
theorem calls_are_activations_abandoned :
    let a : Outline Command := { name := "a", steps := [.group [.frames 2]] }
    let l : List Command := [.register a, .start "a", .tick 1 none, .reset "a", .tick 1 (some 2)]
    let σ : Site := .child (.top 0 0) 0
    let s := ((Stage.opening {} {}).run false l).2
    Session true (.opening {} {}) s ∧ σ.root = some 0 ∧ (callsAt σ s.journal).length = 12 ∧
    (∃ acts : List Activation,
      (callsAt σ s.journal).reverse = acts.flatMap (Activation.entries σ)) ∧
    ∀ l j, s.journal = l ++ .called σ .exit :: j →
      (∃ status, status.isTerminal = true ∧
        (callsAt σ j).head? = some (.returned σ (some status))) ∨
      Phase.of σ j = .underway ∧ CutShort s.step? σ j := by
  intro a l σ s
  have hcalm : (Stage.opening {} {}).calmly l = true := by decide +kernel
  have h : Session true (.opening {} {}) s := hcalm ▸ Session.run false l (.opening {} {})
  have hlength : (callsAt σ s.journal).length = 12 := by decide +kernel
  exact ⟨h, rfl, hlength, calls_are_activations h rfl⟩

end Sequencer
