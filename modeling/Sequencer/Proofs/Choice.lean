import Sequencer.Proofs.Activation
import Sequencer.Proofs.Choice.Steps

/-!
# Choices run the list that they chose

A choice calls only steps of the list that it chose last. The owner of a choice takes it for
entered as soon as it calls it to be entered. So when the question panics the next frame ticks
the choice all the same, and it goes on with the list of an earlier activation, or with the first
one if it never chose.
-/

set_option autoImplicit false

namespace Sequencer

open Site (Nowhere Within)

namespace Stage

variable {s t : Stage} {id : Nat}

/-- Which step stands at a site depends only on the steps of its sequence. -/
theorem step?_congr (h : (t.sequence id).steps = (s.sequence id).steps) :
    (σ : Site) → σ.root = some id → t.step? σ = s.step? σ
  | .top i index, hr => by
    obtain rfl := Option.some.inj hr
    rw [step?, step?, h]
  | .child τ i, hr => by rw [step?, step?, step?_congr h τ hr]
  | .otherwise τ i, hr => by rw [step?, step?, step?_congr h τ hr]

structure Faithful (s : Stage) (id : Nat) : Prop where
  fitting : Fitting s.step? id s.journal
  recalls : ∀ (i : Nat) (part : Part), (s.sequence id).parts[i]? = some part →
    part.step.Recalls (.top id i) part.progress (chosen s.journal)

structure Mindful (s : Stage) : Prop where
  rooted : ∀ e ∈ s.journal, ∀ σ id, e.site? = some σ → σ.root = some id → id < s.sequences.length
  faithful : ∀ id, (s.sequence id).ticking = false → s.Faithful id

/-- Calls in other sequences leave a sequence faithful that keeps its steps and their progress. -/
theorem Faithful.elsewhere {l : List Entry} (h : s.Faithful id)
    (hp : (t.sequence id).parts = (s.sequence id).parts) (hj : t.journal = l ++ s.journal)
    (hl : ∀ e ∈ l, ∀ σ, e.site? = some σ → σ.root ≠ some id) : t.Faithful id := by
  constructor
  · have hs : Fitting s.step? id t.journal := by
      rw [hj]
      exact h.fitting.append hl
    exact hs.congr (step?_congr (by rw [Sequence.steps, Sequence.steps, hp]))
  · intro i part hpart
    rw [hp] at hpart
    have hrecalls := h.recalls i part hpart
    apply hrecalls.congr
    intro τ hτ
    rw [hj]
    exact chosen_append (fun e he hs => hl e he τ hs hτ.root_eq) s.journal

/-- A sequence that was just built, and of which no step was ever called. -/
theorem Faithful.built (resolve : String → EntityId) (o : Outline Command)
    (hs : s.sequence id = Sequence.build resolve o)
    (hj : ∀ e ∈ s.journal, ∀ σ, e.site? = some σ → σ.root ≠ some id) : s.Faithful id := by
  constructor
  · have hfit : Fitting s.step? id (s.journal ++ []) := Fitting.append hj trivial
    rwa [List.append_nil] at hfit
  · intro i part hpart
    rw [hs] at hpart
    obtain ⟨x, -, rfl⟩ := List.mem_map.mp (List.mem_of_getElem? hpart)
    apply Step.recalls_fresh
    intro τ hτ
    exact chosen_of_silent fun e he hs => hj e he τ hs hτ.root_eq

theorem Mindful.lending (h : s.Mindful) (hid : id < s.sequences.length) : (s.lending id).Mindful := by
  constructor
  · intro e he σ i hσ hr
    rw [s.length_lending]
    rcases List.mem_cons.mp he with rfl | he
    · exact absurd hσ (by simp [Entry.site?])
    · exact h.rooted e he σ i hσ hr
  · intro i hi
    have hne : i ≠ id := by
      rintro rfl
      rw [s.sequence_lending_self hid] at hi
      exact absurd hi (by simp)
    rw [s.sequence_lending_ne hne] at hi
    apply (h.faithful i hi).elsewhere (s.parts_lending id i) (l := [.turn id .driven]) rfl
    simp [Entry.site?]

theorem opening_mindful (settings : Settings) (host : Host) :
    (Stage.opening settings host).Mindful := by
  refine ⟨nofun, fun id _ => ⟨trivial, fun i part hpart => ?_⟩⟩
  rw [sequence_opening] at hpart
  exact absurd hpart (by simp)

end Stage

theorem Chooses.root {s : Stage} {σ : Site} (h : Chooses s.step? σ) : ∃ id, σ.root = some id := by
  obtain ⟨question, yes, no, hσ⟩ := h
  cases hr : σ.root with
  | some id => exact ⟨id, rfl⟩
  | none => exact absurd hσ (by simp [s.step?_of_root_none hr])

/-- A frame of the step at the cursor of a sequence, whether or not it halts. -/
theorem Conductor.playPart_secures {run : Runner} (hrun : run.Follows) (dt : Float32) {u : Stage}
    (id : Nat) (q : Sequence) {part : Part}
    (hstep : u.step? (.top id q.current) = some part.step) :
    Play.Secures id (Keeping u.step? id (part.step.Recalls (.top id q.current)))
      (playPart run dt id q part)
      (Keeping u.step? id (part.step.Recalls (.top id q.current))) := by
  let cue : Cue := { owner := q.name, site := .top id q.current }
  have hdrive : Play.Secures id (Callable u.step? id cue.site (part.step.Recalls cue.site))
      (playPart run dt id q part) (Callable u.step? id cue.site (part.step.Recalls cue.site)) :=
    Cue.drive_secures
      (Cue.callable_stable (fun p => part.step.recalls_stable rfl p fun _ _ h => h) rfl)
      (Step.entered_secures hrun part.step cue rfl hstep)
      (Cue.tick_secures rfl (Step.tick_follows hrun part.step cue)
        (Step.tick_secures hrun part.step cue rfl hstep))
      (Step.exited_secures hrun part.step cue rfl)
  exact hdrive.mono (fun _ _ hp => ⟨hp, nofun⟩) fun _ _ hp => hp.1

section

variable {run : Runner} {dt : Float32} {s t : Stage} {id : Nat} {part : Part}
  {r : Except Halt Status} {p : part.step.Progress}

/-- What the play leaves of its sequence, also if it halts: the step comes back with the lists that
its choices chose last, and the other steps of the sequence were not called. -/
theorem Drive.faithful (hd : Drive run dt s id part r p t) (hs : s.Sound) (hf : s.Faithful id) :
    (t.afterPlay id (s.sequence id) ⟨part.step, p⟩ r).Faithful id := by
  have hplaying := hs.playing (s.lt_of_running hd.due.running)
  have hready : Keeping s.step? id (part.step.Recalls (.top id (s.sequence id).current))
      part.progress (s.lending id).journal :=
    ⟨⟨nofun, hf.fitting⟩, hf.recalls _ part hd.cursor⟩
  obtain ⟨-, hfit, hback⟩ := Conductor.playPart_secures hd.callbacks dt id (s.sequence id)
    (Stage.step?_top hd.cursor) part.progress (s.lending id) hplaying hready r p t hd.play
  obtain ⟨-, l, hl, hown⟩ :=
    (Conductor.playPart_follows hd.callbacks dt id (s.sequence id) part).playing hplaying hd.play
  have he := (hd.leads.lasts (hs.lending id)).2
  have hparts := hd.parts he
  obtain ⟨n, hn, hsilent⟩ := t.calls_afterPlay id (s.sequence id) ⟨part.step, p⟩ r
  have hchosen : chosen (t.afterPlay id (s.sequence id) ⟨part.step, p⟩ r).journal =
      chosen t.journal := by
    funext τ
    rw [hn]
    exact chosen_append (fun e hel => by simp [hsilent e hel]) t.journal
  constructor
  · have hall : Fitting s.step? id (t.afterPlay id (s.sequence id) ⟨part.step, p⟩ r).journal := by
      rw [hn]
      exact hfit.append fun e hel σ hσ => absurd hσ (by simp [hsilent e hel])
    apply hall.congr
    apply Stage.step?_congr
    rw [Sequence.steps, t.parts_afterPlay _ _ _ (hd.length he), hparts]
    exact Sequence.steps_withPart hd.cursor p
  · intro i part' hpart'
    rw [t.parts_afterPlay _ _ _ (hd.length he), hparts, List.getElem?_set] at hpart'
    rw [hchosen]
    split at hpart'
    · next hi =>
      subst hi
      split at hpart'
      · obtain rfl := Option.some.inj hpart'
        exact hback
      · exact absurd hpart' (by simp)
    · next hi =>
      have hbefore := hf.recalls i part' hpart'
      apply hbefore.congr
      intro τ hτ
      rw [hl]
      refine (chosen_append (fun e hel hs => ?_) _).trans (chosen_cons_ne (by simp [Entry.site?]) _)
      have hτ' := hown e hel τ hs hτ.root_eq
      exact hi (by simpa using hτ'.unique hτ rfl)

/-- A drive leaves a mindful stage if what callbacks do in it does. -/
theorem Stage.Mindful.driven (hm : s.Mindful) (ht : t.Mindful)
    (hd : Drive run dt s id part r p t) (hs : s.Sound) :
    (t.afterPlay id (s.sequence id) ⟨part.step, p⟩ r).Mindful := by
  obtain ⟨n, hn, hsilent⟩ := t.calls_afterPlay id (s.sequence id) ⟨part.step, p⟩ r
  constructor
  · intro e he σ i hσ hr
    rw [t.length_afterPlay]
    rw [hn] at he
    rcases List.mem_append.mp he with he | he
    · exact absurd hσ (by simp [hsilent e he])
    · exact ht.rooted e he σ i hσ hr
  · intro i hi
    by_cases hne : i = id
    · rw [hne]
      exact hd.faithful hs (hm.faithful id hd.free)
    · have hsame := t.sequence_afterPlay_ne id (s.sequence id) ⟨part.step, p⟩ r hne
      rw [hsame] at hi
      apply (ht.faithful i hi).elsewhere (by rw [hsame]) hn
      exact fun e he σ hσ => absurd hσ (by simp [hsilent e he])

end

theorem Incident.mindful {own : Site → Prop} {s t : Stage} (h : Incident own s t) (hs : s.Sound)
    (hown : s.Lent own) (hm : s.Mindful) : t.Mindful := by
  have hu := h.undisturbed hs hown
  have hle := (h.lasts hs).2.length
  obtain ⟨l, hl, hcalls⟩ := hu.journal
  have hrooted : ∀ e ∈ t.journal, ∀ σ id, e.site? = some σ → σ.root = some id →
      id < s.sequences.length := by
    intro e he σ id hσ hr
    rw [hl] at he
    rcases List.mem_append.mp he with he | he
    · exact s.lt_of_ticking (hcalls e he σ id hσ hr)
    · exact hm.rooted e he σ id hσ hr
  refine ⟨fun e he σ id hσ hr => Nat.lt_of_lt_of_le (hrooted e he σ id hσ hr) hle, fun id ht => ?_⟩
  rcases h.parts hs id with hp | ⟨hid, resolve, o, hbuilt⟩
  · rw [hu.ticking id] at ht
    apply (hm.faithful id ht).elsewhere hp hl
    intro e he σ hσ hr
    rw [hcalls e he σ id hσ hr] at ht
    exact absurd ht (by simp)
  · apply Stage.Faithful.built resolve o hbuilt
    exact fun e he σ hσ hr => absurd (hrooted e he σ id hσ hr) (by omega)

/-- Every course leaves the stage mindful, also if it halts. -/
theorem Course.mindful {own : Site → Prop} {calm : Bool} {s t : Stage} (h : Course own calm s t)
    (hs : s.Sound) (hown : s.Lent own) (hm : s.Mindful) : t.Mindful := by
  induction h with
  | single h => exact h.mindful hs hown hm
  | halt _ ih => exact ih hs hown hm
  | trans h _ ih ih' =>
    obtain ⟨ht, he⟩ := h.lasts hs
    exact ih' ht (hown.extends he) (ih hs hown hm)
  | widen hw _ ih =>
    refine ih hs (fun σ id hσ hr => ?_) hm
    exact hown σ id (Site.of_rooted (hw σ hσ) hr) hr
  | @driven own run dt s t id part r p hd _ ih =>
    have hid := s.lt_of_running hd.due.running
    exact hm.driven (ih (hs.lending id) (s.lending_lent hid _) (hm.lending hid)) hd hs

def Admitted (σ : Site) (j : List Entry) : Prop :=
  ∃ l j', j = l ++ .returned σ none :: j' ∧ Phase.of σ j' = .entering ∧
    ∀ e ∈ l, e ≠ .called σ .enter

theorem Admitted.cons {σ : Site} {e : Entry} {j : List Entry} (he : e ≠ .called σ .enter)
    (h : Admitted σ j) : Admitted σ (e :: j) := by
  obtain ⟨l, j', rfl, hentering, hl⟩ := h
  exact ⟨e :: l, j', rfl, hentering, List.forall_mem_cons.mpr ⟨he, hl⟩⟩

/-- If no call is broken off, a step is ticked only once it has come in. -/
theorem admitted_of_lawful {steps : Site → Option (Step Command)} {own : Site → Prop} {σ : Site}
    {j : List Entry} (hown : own σ) (hlaw : Lawful steps own j [])
    (h : Phase.of σ j = .underway ∨ Phase.of σ j = .ticking ∨ Phase.of σ j = .settled) :
    Admitted σ j := by
  induction j with
  | nil => exact absurd h (by simp [Phase.of])
  | cons e j ih =>
    have hbefore := ih hlaw.2
    by_cases he : e.site? = some σ
    · have hallowed := hlaw.1 σ he hown
      rw [List.append_nil] at hallowed
      cases e with
      | called τ c =>
        obtain rfl := Option.some.inj he
        cases c with
        | enter => exact absurd h (by simp [Call.phase])
        | tick dt => exact (hbefore (.inl hallowed)).cons (by simp)
        | exit => exact absurd h (by simp [Call.phase])
      | returned τ answer =>
        obtain rfl := Option.some.inj he
        cases answer with
        | none =>
          rcases hallowed with hentering | hleaving
          · exact ⟨[], j, rfl, hentering, by simp⟩
          · rw [Phase.of_returned, hleaving] at h
            exact absurd h (by simp [Phase.ended])
        | some status => exact (hbefore (.inr (.inl hallowed))).cons (by simp)
      | _ => exact absurd he (by simp [Entry.site?])
    · rw [Phase.of_cons_ne he] at h
      apply (hbefore h).cons
      rintro rfl
      exact he rfl

/-- A choice that came in has chosen since it was entered. -/
theorem chosen_of_admitted {steps : Site → Option (Step Command)} {id : Nat} {σ : Site}
    {j : List Entry} (hr : σ.root = some id) (hc : Chooses steps σ) (hfit : Fitting steps id j)
    (h : Admitted σ j) : ∃ b, chosen (sinceEntered σ j) σ = some b := by
  obtain ⟨l, j', rfl, hentering, hl⟩ := h
  obtain ⟨name, b, j', rfl⟩ := hfit.fits rfl hr hc hentering
  rw [Phase.of_cons_ne (by simp [Entry.site?])] at hentering
  clear hfit
  induction l with
  | nil =>
    refine ⟨b, ?_⟩
    rw [List.nil_append, sinceEntered, if_neg (by simp [Entry.enters]), sinceEntered,
      if_neg (by simp [Entry.enters]), chosen_answered ((phase_sinceEntered j').trans hentering)]
  | cons e l ih =>
    obtain ⟨a, ha⟩ := ih fun e' he' => hl e' (List.mem_cons_of_mem _ he')
    have he : ¬ e.enters σ = true := fun he => hl e List.mem_cons_self (Entry.enters_iff.mp he)
    rw [List.cons_append, sinceEntered, if_neg he, chosen, ha]
    exact Option.isSome_iff_exists.mp (by simp)

/-- Whatever a choice is made of, whatever callbacks do and whatever panics: a choice calls steps of
one of its lists only as it is ticked, and of that one which its question chose last, or of the
first if it never chose. If the last call to enter the choice came to its end, the question chose
that list since this call; so it did if nothing ever panics. -/
theorem chosen_list_runs {calm : Bool} {settings : Settings} {host : Host} {s : Stage}
    (h : Session calm (.opening settings host) s) {σ : Site} (hc : Chooses s.step? σ) {b : Bool}
    {i : Nat} {call : Call} {l j : List Entry}
    (hj : s.journal = l ++ .called (σ.branch b i) call :: j) :
    Phase.of σ j = .ticking ∧ (chosen j σ).getD true = b ∧
      (Admitted σ j → chosen (sinceEntered σ j) σ = some b) ∧
      (calm = true → chosen (sinceEntered σ j) σ = some b) := by
  obtain ⟨id, hr⟩ := hc.root
  have hm := h.leads.course.mindful (Stage.opening_sound settings host) nofun
    (Stage.opening_mindful settings host)
  have hfit := (hm.faithful id (h.resting id)).fitting
  have hsplit : s.journal = (l ++ [.called (σ.branch b i) call]) ++ j := by simp [hj]
  have hwelcome : Welcome s.step? (σ.branch b i) j := by
    rw [hj] at hfit
    exact hfit.fits rfl (by rw [Site.root_branch, hr])
  obtain ⟨hticking, hlast⟩ := welcome_branch.mp hwelcome hc
  have hadmitted : Admitted σ j → chosen (sinceEntered σ j) σ = some b := by
    intro ha
    rw [hsplit] at hfit
    obtain ⟨a, ha⟩ := chosen_of_admitted hr hc hfit.of_append ha
    rw [chosen_of_sinceEntered ha] at hlast
    rw [ha, ← hlast]
    rfl
  refine ⟨hticking, hlast, hadmitted, ?_⟩
  rintro rfl
  have hlaw := h.lawful
  rw [hsplit] at hlaw
  exact hadmitted (admitted_of_lawful ⟨id, hr⟩ hlaw.of_append (.inr (.inl hticking)))

/-- The answer is no, and the second list is run. -/
theorem chosen_list_runs_second :
    let a : Outline Command :=
      { name := "a", steps := [.choose { test := .flag "f" } [.frames 1] [.frames 2]] }
    let l : List Command := [.register a, .start "a", .tick 1 none]
    let σ : Site := .top 0 0
    let s := ((Stage.opening {} {}).run false l).2
    Session true (.opening {} {}) s ∧ Chooses s.step? σ ∧
      ∃ k j, s.journal = k ++ .called (σ.branch false 0) .enter :: j ∧
        chosen (sinceEntered σ j) σ = some false := by
  intro a l σ s
  have hcalm : (Stage.opening {} {}).calmly l = true := by decide +kernel
  have h : Session true (.opening {} {}) s := hcalm ▸ Session.run false l (.opening {} {})
  have hc : Chooses s.step? σ := by decide +kernel
  have hentered : s.journal.any (Entry.enters (σ.branch false 0)) = true := by decide +kernel
  obtain ⟨e, he, henters⟩ := List.any_eq_true.mp hentered
  obtain rfl := Entry.enters_iff.mp henters
  obtain ⟨k, j, hj⟩ := List.append_of_mem he
  exact ⟨h, hc, k, j, hj, (chosen_list_runs h hc hj).2.2.2 rfl⟩

/-- The question panics, so that it is never answered; the host goes on, and the next frame runs the
first list. -/
theorem unanswered_choice_runs_a_list :
    let a : Outline Command :=
      { name := "a", steps := [.choose { test := .panic "boom" } [.frames 1] [.frames 2]] }
    let l : List Command := [.register a, .start "a", .tick 1 none, .tick 1 none]
    let σ : Site := .top 0 0
    let s := ((Stage.opening {} {}).run false l).2
    Session ((Stage.opening {} {}).calmly l) (.opening {} {}) s ∧ Chooses s.step? σ ∧
      s.journal.any (Entry.enters (σ.branch true 0)) = true ∧ chosen s.journal σ = none := by
  intro a l σ s
  exact ⟨Session.run false l (.opening {} {}), by decide +kernel, by decide +kernel,
    by decide +kernel⟩

end Sequencer
