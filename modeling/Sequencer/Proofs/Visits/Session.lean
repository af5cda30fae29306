import Sequencer.Proofs.Choice
import Sequencer.Proofs.Visits.Steps

/-!
# The visits of the steps of sequences

No one but a sequence that is ticking calls its steps, and nothing but their calls touches what
they remember. So in every session, whatever panics and however callbacks nest, each step of each
sequence remembers what the visits in the journal made of it since it was built.
-/

set_option autoImplicit false

namespace Sequencer

open Site (Within)

def Stage.Recorded (s : Stage) (id : Nat) : Prop :=
  ∀ (i : Nat) (part : Part), (s.sequence id).parts[i]? = some part →
    part.step.RecordedWithin (.top id i) part.progress s.journal

namespace Stage.Recorded

variable {s t : Stage} {id : Nat}

/-- Calls in other sequences leave a sequence recorded that keeps its steps and their progress. -/
theorem elsewhere {l : List Entry} (h : s.Recorded id)
    (hp : (t.sequence id).parts = (s.sequence id).parts) (hj : t.journal = l ++ s.journal)
    (hl : ∀ e ∈ l, ∀ σ, e.site? = some σ → σ.root ≠ some id) : t.Recorded id := by
  intro i part hpart
  rw [hp] at hpart
  apply (h i part hpart).congr
  intro τ hτ
  rw [hj]
  exact callsAt_append (fun e he hs => hl e he τ hs hτ.root_eq) s.journal

/-- A sequence that was just built, and of which no step was ever called. -/
theorem built (resolve : String → EntityId) (o : Outline Command)
    (hs : s.sequence id = Sequence.build resolve o)
    (hj : ∀ e ∈ s.journal, ∀ σ, e.site? = some σ → σ.root ≠ some id) : s.Recorded id := by
  intro i part hpart
  rw [hs] at hpart
  obtain ⟨x, -, rfl⟩ := List.mem_map.mp (List.mem_of_getElem? hpart)
  apply Step.recordedWithin_fresh
  exact fun τ hτ => callsAt_of_silent fun e he hσ => hj e he τ hσ hτ.root_eq

end Stage.Recorded

/-- A frame of the step at the cursor of a sequence, whether or not it halts. -/
theorem Conductor.playPart_records {run : Runner} (hrun : run.Follows) (dt : Float32) (id : Nat)
    (q : Sequence) (part : Part) :
    Play.Secures id (part.step.RecordedWithin (.top id q.current)) (playPart run dt id q part)
      (part.step.RecordedWithin (.top id q.current)) := by
  let cue : Cue := { owner := q.name, site := .top id q.current }
  exact Cue.drive_secures (c := cue)
    (fun p => part.step.recordedWithin_stable rfl p fun _ _ h => h)
    (Step.entered_records hrun rfl (Step.enter_records hrun part.step cue rfl))
    (Step.ticked_records hrun rfl (Step.tick_records hrun part.step cue rfl))
    (Step.exited_records hrun part.step cue rfl)

section

variable {run : Runner} {dt : Float32} {s t : Stage} {id : Nat} {part : Part}
  {r : Except Halt Status} {p : part.step.Progress}

/-- What the play leaves of its sequence: the step comes back as its visits left it, and the other
steps of the sequence got none. -/
theorem Drive.recorded (hd : Drive run dt s id part r p t) (hs : s.Sound) (h : s.Recorded id) :
    (t.afterPlay id (s.sequence id) ⟨part.step, p⟩ r).Recorded id := by
  have hplaying := hs.playing (s.lt_of_running hd.due.running)
  have hlent : ∀ τ, callsAt τ (s.lending id).journal = callsAt τ s.journal :=
    fun τ => callsAt_cons_ne (by simp [Entry.site?]) s.journal
  have hready : part.step.RecordedWithin (.top id (s.sequence id).current) part.progress
      (s.lending id).journal := (h _ part hd.cursor).congr fun τ _ => hlent τ
  obtain ⟨-, hback⟩ := Conductor.playPart_records hd.callbacks dt id (s.sequence id) part
    part.progress (s.lending id) hplaying hready r p t hd.play
  obtain ⟨-, l, hl, hown⟩ :=
    (Conductor.playPart_follows hd.callbacks dt id (s.sequence id) part).playing hplaying hd.play
  have he := (hd.leads.lasts (hs.lending id)).2
  obtain ⟨n, hn, hsilent⟩ := t.calls_afterPlay id (s.sequence id) ⟨part.step, p⟩ r
  have hafter : ∀ τ, callsAt τ (t.afterPlay id (s.sequence id) ⟨part.step, p⟩ r).journal =
      callsAt τ t.journal := by
    intro τ
    rw [hn]
    exact callsAt_append (fun e hel => by simp [hsilent e hel]) t.journal
  intro i part' hpart'
  rw [t.parts_afterPlay _ _ _ (hd.length he), hd.parts he, List.getElem?_set] at hpart'
  split at hpart'
  · next hi =>
    subst hi
    split at hpart'
    · obtain rfl := Option.some.inj hpart'
      exact hback.congr fun τ _ => hafter τ
    · exact absurd hpart' (by simp)
  · next hi =>
    apply (h i part' hpart').congr
    intro τ hτ
    rw [hafter, hl, callsAt_append, hlent]
    intro e hel hσ
    have hτ' := hown e hel τ hσ hτ.root_eq
    exact hi (by simpa using hτ'.unique hτ rfl)

end

/-- Every course keeps the record of the sequences that are not ticking, also if it halts. -/
theorem Course.recorded {own : Site → Prop} {calm : Bool} {s t : Stage} (h : Course own calm s t)
    (hs : s.Sound) (hown : s.Lent own) (hm : s.Mindful)
    (hr : ∀ id, (s.sequence id).ticking = false → s.Recorded id) :
    ∀ id, (t.sequence id).ticking = false → t.Recorded id := by
  induction h with
  | @single own s t h =>
    intro id ht
    have hu := h.undisturbed hs hown
    obtain ⟨l, hl, hcalls⟩ := hu.journal
    rw [hu.ticking id] at ht
    rcases h.parts hs id with hp | ⟨hid, resolve, o, hbuilt⟩
    · apply (hr id ht).elsewhere hp hl
      intro e he σ hσ hroot
      rw [hcalls e he σ id hσ hroot] at ht
      exact absurd ht (by simp)
    · apply Stage.Recorded.built resolve o hbuilt
      intro e he σ hσ hroot
      rw [hl] at he
      rcases List.mem_append.mp he with he | he
      · exact absurd (s.lt_of_ticking (hcalls e he σ id hσ hroot)) (by omega)
      · exact absurd (hm.rooted e he σ id hσ hroot) (by omega)
  | halt _ ih => exact ih hs hown hm hr
  | trans h _ ih ih' =>
    obtain ⟨ht, he⟩ := h.lasts hs
    exact ih' ht (hown.extends he) (h.mindful hs hown hm) (ih hs hown hm hr)
  | widen hw _ ih =>
    refine ih hs (fun σ id hσ hroot => ?_) hm hr
    exact hown σ id (Site.of_rooted (hw σ hσ) hroot) hroot
  | @driven own run dt s t id part r p hd _ ih =>
    have hid := s.lt_of_running hd.due.running
    have hlent : ∀ i, ((s.lending id).sequence i).ticking = false → (s.lending id).Recorded i := by
      intro i hi
      have hne : i ≠ id := by
        rintro rfl
        rw [s.sequence_lending_self hid] at hi
        exact absurd hi (by simp)
      rw [s.sequence_lending_ne hne] at hi
      apply (hr i hi).elsewhere (s.parts_lending id i) (l := [.turn id .driven]) rfl
      simp [Entry.site?]
    have hcourse := ih (hs.lending id) (s.lending_lent hid _) (hm.lending hid) hlent
    intro i hi
    by_cases hne : i = id
    · rw [hne]
      exact hd.recorded hs (hr id hd.free)
    · have hsame := t.sequence_afterPlay_ne id (s.sequence id) ⟨part.step, p⟩ r hne
      obtain ⟨n, hn, hsilent⟩ := t.calls_afterPlay id (s.sequence id) ⟨part.step, p⟩ r
      rw [hsame] at hi
      apply (hcourse i hi).elsewhere (by rw [hsame]) hn
      exact fun e he σ hσ => absurd hσ (by simp [hsilent e he])

/-! What a step at a site remembers -/

def nthPart : (l : List (Step Command)) → Children l → Nat → Option Part
  | [], _, _ => none
  | s :: _, p, 0 => some ⟨s, p.1⟩
  | _ :: rest, p, n + 1 => nthPart rest p.2 n

def nthLane : (l : List (Step Command)) → Lanes l → Nat → Option Part
  | [], _, _ => none
  | s :: _, p, 0 => some ⟨s, p.1.child⟩
  | _ :: rest, p, n + 1 => nthLane rest p.2 n

def Step.part? : (s : Step Command) → s.Progress → Nat → Option Part
  | .choose _ yes no => fun (p : ChoiceProgress (Children yes) (Children no)) =>
    nthPart yes p.yes.children
  | .bounded _ _ steps => fun (p : BoundedProgress (Children steps)) =>
    nthPart steps p.body.children
  | .retry _ steps => fun (p : RetryProgress (Children steps)) => nthPart steps p.body.children
  | .group steps => fun (p : Track (Children steps)) => nthPart steps p.children
  | .parallel _ steps => nthLane steps
  | _ => fun _ _ => none

def Step.otherPart? : (s : Step Command) → s.Progress → Nat → Option Part
  | .choose _ yes no => fun (p : ChoiceProgress (Children yes) (Children no)) =>
    nthPart no p.no.children
  | _ => fun _ _ => none

def Stage.part? (s : Stage) : Site → Option Part
  | .top id index => (s.sequence id).parts[index]?
  | .held _ => none
  | .child τ i => (s.part? τ).bind fun part => part.step.part? part.progress i
  | .otherwise τ i => (s.part? τ).bind fun part => part.step.otherPart? part.progress i

theorem Step.part?_leaf {s : Step Command} (h : s.isLeaf = true) (p : s.Progress) (i : Nat) :
    s.part? p i = none := by
  cases s <;> first | rfl | exact absurd h (by simp [Step.isLeaf])

theorem Step.otherPart?_of_not_choice {s : Step Command} (h : s.isChoice = false)
    (p : s.Progress) (i : Nat) : s.otherPart? p i = none := by
  cases s <;> first | rfl | exact absurd h (by simp [Step.isChoice])

theorem nthPart_step : (l : List (Step Command)) → (p : Children l) → (i : Nat) →
    (nthPart l p i).map (·.step) = l[i]?
  | [], _, _ => rfl
  | _ :: _, _, 0 => rfl
  | _ :: rest, p, i + 1 => nthPart_step rest p.2 i

theorem nthLane_step : (l : List (Step Command)) → (p : Lanes l) → (i : Nat) →
    (nthLane l p i).map (·.step) = l[i]?
  | [], _, _ => rfl
  | _ :: _, _, 0 => rfl
  | _ :: rest, p, i + 1 => nthLane_step rest p.2 i

theorem Step.part?_step (s : Step Command) (p : s.Progress) (i : Nat) :
    (s.part? p i).map (·.step) = s.child? i := by
  cases s <;> first | rfl | exact nthPart_step _ _ i | exact nthLane_step _ _ i

theorem Step.otherPart?_step (s : Step Command) (p : s.Progress) (i : Nat) :
    (s.otherPart? p i).map (·.step) = s.otherwise? i := by
  cases s <;> first | rfl | exact nthPart_step _ _ i

/-- Wherever a step stands something is remembered of it. -/
theorem Stage.part?_step (s : Stage) : (σ : Site) → (s.part? σ).map (·.step) = s.step? σ
  | .top id index => by rw [part?, step?, Sequence.steps, List.getElem?_map]
  | .held _ => rfl
  | .child τ i => by
    rw [part?, step?, ← s.part?_step τ]
    cases s.part? τ with
    | none => rfl
    | some part => exact part.step.part?_step part.progress i
  | .otherwise τ i => by
    rw [part?, step?, ← s.part?_step τ]
    cases s.part? τ with
    | none => rfl
    | some part => exact part.step.otherPart?_step part.progress i

section

variable {σ : Site} {j : List Entry} {i : Nat} {part : Part}

theorem recordedChildren_nth {b : Bool} : {l : List (Step Command)} → {n i : Nat} →
    {p : Children l} → recordedChildren l σ b n p j → nthPart l p i = some part →
    part.step.RecordedWithin (σ.branch b (n + i)) part.progress j
  | [], _, _, _, _, hpart => absurd hpart (by simp [nthPart])
  | _ :: _, _, 0, _, h, hpart => by
    obtain rfl := Option.some.inj hpart
    exact h.1
  | _ :: _, n, i + 1, _, h, hpart => by
    rw [← Nat.add_assoc, Nat.add_right_comm]
    exact recordedChildren_nth h.2 hpart

theorem recordedLanes_nth : {l : List (Step Command)} → {n i : Nat} → {p : Lanes l} →
    recordedLanes l σ n p j → nthLane l p i = some part →
    part.step.RecordedWithin (σ.branch true (n + i)) part.progress j
  | [], _, _, _, _, hpart => absurd hpart (by simp [nthLane])
  | _ :: _, _, 0, _, h, hpart => by
    obtain rfl := Option.some.inj hpart
    exact h.1
  | _ :: _, n, i + 1, _, h, hpart => by
    rw [← Nat.add_assoc, Nat.add_right_comm]
    exact recordedLanes_nth h.2 hpart

theorem Step.RecordedBelow.child {s : Step Command} {p : s.Progress} (h : s.RecordedBelow σ p j)
    (hpart : s.part? p i = some part) :
    part.step.RecordedWithin (σ.child i) part.progress j := by
  have hnth : ∀ {l : List (Step Command)} {p : Children l}, recordedChildren l σ true 0 p j →
      nthPart l p i = some part → part.step.RecordedWithin (σ.child i) part.progress j := by
    intro l p h hpart
    have hwithin := recordedChildren_nth h hpart
    rwa [Nat.zero_add] at hwithin
  cases hleaf : s.isLeaf with
  | true => exact absurd hpart (by simp [Step.part?_leaf hleaf])
  | false =>
    cases s with
    | choose _ yes no => exact hnth h.1 hpart
    | bounded _ _ steps => exact hnth h hpart
    | retry _ steps => exact hnth h hpart
    | group steps => exact hnth h hpart
    | parallel _ steps =>
      have hwithin := recordedLanes_nth h hpart
      rwa [Nat.zero_add] at hwithin
    | _ => exact absurd hleaf (by simp [Step.isLeaf])

theorem Step.RecordedBelow.otherwise {s : Step Command} {p : s.Progress}
    (h : s.RecordedBelow σ p j) (hpart : s.otherPart? p i = some part) :
    part.step.RecordedWithin (σ.otherwise i) part.progress j := by
  cases hchoice : s.isChoice with
  | false => exact absurd hpart (by simp [Step.otherPart?_of_not_choice hchoice])
  | true =>
    cases s with
    | choose _ yes no =>
      have hwithin := recordedChildren_nth (b := false) h.2 hpart
      rwa [Nat.zero_add] at hwithin
    | _ => exact absurd hchoice (by simp [Step.isChoice])

end

theorem Stage.recordedWithin {s : Stage} (h : ∀ id, s.Recorded id) : (σ : Site) → {part : Part} →
    s.part? σ = some part → part.step.RecordedWithin σ part.progress s.journal
  | .top id i, _, hpart => h id i _ hpart
  | .child τ _, _, hpart => by
    obtain ⟨parent, hτ, hpart⟩ := Option.bind_eq_some_iff.mp hpart
    exact (recordedWithin h τ hτ).2.child hpart
  | .otherwise τ _, _, hpart => by
    obtain ⟨parent, hτ, hpart⟩ := Option.bind_eq_some_iff.mp hpart
    exact (recordedWithin h τ hτ).2.otherwise hpart

/-- The visits of the step at a site since it was built, newest first, and what it remembers. -/
structure Stage.History (s : Stage) (σ : Site) (x : Step Command) (visits : List (Visit x.Progress))
    (p : x.Progress) : Prop where
  part : s.part? σ = some ⟨x, p⟩
  lived : x.Lived visits p
  calls : callsAt σ s.journal = visits.flatMap (Visit.entries σ)

/-- Between commands of the host every step of every sequence remembers what its visits made of it
since it was built, and the journal tells all of them: each found what the one before had left. -/
theorem Session.history {calm : Bool} {settings : Settings} {host : Host} {s : Stage}
    (h : Session calm (.opening settings host) s) {σ : Site} {x : Step Command}
    (hx : s.step? σ = some x) : ∃ visits p, s.History σ x visits p := by
  have hopening : ∀ id, ((Stage.opening settings host).sequence id).ticking = false →
      (Stage.opening settings host).Recorded id := by
    intro id _ i part hpart
    rw [Stage.sequence_opening] at hpart
    exact absurd hpart (by simp)
  have hall := h.leads.course.recorded (Stage.opening_sound settings host) nofun
    (Stage.opening_mindful settings host) hopening
  rw [← s.part?_step] at hx
  obtain ⟨⟨x, p⟩, hpart, rfl⟩ := Option.map_eq_some_iff.mp hx
  obtain ⟨visits, hlived, hcalls⟩ :=
    (Stage.recordedWithin (fun id => hall id (h.resting id)) σ hpart).1
  exact ⟨visits, p, hpart, hlived, hcalls⟩

end Sequencer
