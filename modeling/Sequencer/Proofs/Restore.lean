import Sequencer.Proofs.Activation
import Sequencer.Proofs.Restore.Past
import Sequencer.Proofs.Restore.Turns

/-!
# Resuming at a bookmark

A sequence that is restored goes on like one that was just built of the steps from the bookmark on
and started: whatever it was doing before, in the middle of whatever composite step, leaves no
trace in its turns. That holds up to the first turn that halts; a choice whose condition panics as
it is entered stays with what an earlier activation left in it.
-/

set_option autoImplicit false

namespace Sequencer

open Site (Nowhere Within Below)

/-! The step at a bookmark is entered once -/

section

variable {id : Nat} {σ : Site} {π α β : Type}

def Play.EntersNot (id : Nat) (σ : Site) (x : Play π α) : Prop :=
  ∀ p s, Playing id s → Playing id (x (p, s)).2.2 ∧
    ∃ l, (x (p, s)).2.2.journal = l ++ s.journal ∧ ∀ e ∈ l, e ≠ .called σ .enter

namespace Play.EntersNot

theorem pure (a : α) : (pure a : Play π α).EntersNot id σ :=
  fun _ _ hs => ⟨hs, [], rfl, nofun⟩

theorem note {e : Entry} (he : e ≠ .called σ .enter) :
    (Play.note e : Play π Unit).EntersNot id σ := by
  intro p s hs
  refine ⟨⟨hs.sound.note e, hs.ticking⟩, [e], rfl, fun e' he' => ?_⟩
  rwa [List.mem_singleton.mp he']

/-- What is below a step does not enter the step itself. -/
theorem of_follows {x : Play π α} (h : x.Follows (Below σ)) (hσ : σ.root = some id) :
    x.EntersNot id σ := by
  intro p s hs
  rcases hx : x (p, s) with ⟨r, q, t⟩
  obtain ⟨ht, l, hl, hown⟩ := h.playing hs hx
  refine ⟨ht, l, hl, fun e he hcall => ?_⟩
  subst hcall
  exact Site.not_below_self σ (hown _ he σ rfl hσ)

theorem bind {x : Play π α} {f : α → Play π β} (hx : x.EntersNot id σ)
    (hf : ∀ a, (f a).EntersNot id σ) : (x >>= f).EntersNot id σ := by
  intro p s hs
  obtain ⟨ht, l, hl, hnot⟩ := hx p s hs
  rw [Play.bind_apply]
  rcases hxs : x (p, s) with ⟨e | a, q, t⟩ <;> rw [hxs] at ht hl
  · exact ⟨ht, l, hl, hnot⟩
  · obtain ⟨hu, l', hl', hnot'⟩ := hf a q t ht
    refine ⟨hu, l' ++ l, ?_, fun e he => ?_⟩
    · rw [List.append_assoc]
      exact hl'.trans (congrArg (l' ++ ·) hl)
    · exact (List.mem_append.mp he).elim (hnot' e) (hnot e)

theorem ite {c : Prop} [Decidable c] {x y : Play π α} (hx : x.EntersNot id σ)
    (hy : y.EntersNot id σ) : (if c then x else y).EntersNot id σ := by
  split
  · exact hx
  · exact hy

end Play.EntersNot

variable {c : Cue} {source : Source} {label : String} {index : Nat} {dt : Float32}
  {enter exit : Play π Unit} {tick : Play π Status}

/-- A step that is driven and was not entered yet is entered first, and once. -/
theorem Cue.drive_enters (hc : c.site.root = some id) (he : enter.Follows (Below c.site))
    (ht : tick.Follows (Below c.site)) (hx : exit.Follows (Below c.site)) (p : π) {s : Stage}
    (hs : Playing id s) :
    ∃ l n, (c.drive source label index dt true enter tick exit (p, s)).2.2.journal =
        l ++ .called c.site .enter :: (n ++ s.journal) ∧
      (∀ e ∈ n, e.site? = none) ∧ ∀ e ∈ l, e ≠ .called c.site .enter := by
  have hsettings : (Play.settings : Play π Settings).EntersNot id c.site :=
    .of_follows (.of_remarks .settings) hc
  have hrest : Play.EntersNot id c.site (do
      enter
      Play.note (.returned c.site none)
      c.tickStep source label index dt tick exit) := by
    refine .bind (.of_follows he hc) fun _ => .bind (.note nofun) fun _ => .bind ?_ fun status =>
      .bind ?_ fun _ => .pure status
    · exact .bind (.note nofun) fun _ => .bind (.of_follows ht hc) fun _ =>
        .bind (.note nofun) fun _ => .pure _
    · exact .ite (.bind (.bind (.note nofun) fun _ => .bind (.of_follows hx hc) fun _ =>
        .note nofun) fun _ => .bind hsettings fun _ => .ite (.note nofun) (.pure ())) (.pure ())
  have hcalled : ∀ s' : Stage, Playing id s' → ∃ l,
      ((c.enter enter >>= fun _ => c.tickStep source label index dt tick exit) (p, s')).2.2.journal =
        l ++ .called c.site .enter :: s'.journal ∧ ∀ e ∈ l, e ≠ .called c.site .enter := by
    intro s' hs'
    have hnoted : Playing id (s'.note (.called c.site .enter)) := ⟨hs'.sound.note _, hs'.ticking⟩
    obtain ⟨-, l, hl, hnot⟩ := hrest p _ hnoted
    refine ⟨l, ?_, hnot⟩
    rw [Cue.enter, bind_assoc, Play.bind_apply, Play.note_apply]
    simp only [bind_assoc]
    exact hl
  let told : Stage :=
    if s.settings.traceSteps then s.note (.notice (.entered source c.owner label index)) else s
  have hdrive : c.drive source label index dt true enter tick exit (p, s) =
      (c.enter enter >>= fun _ => c.tickStep source label index dt tick exit) (p, told) := by
    rw [Cue.drive, Play.bind_apply, Cue.openStep_apply, if_pos rfl, Play.bind_apply]
  rw [hdrive]
  by_cases htrace : s.settings.traceSteps = true
  · have htold : told = s.note (.notice (.entered source c.owner label index)) := if_pos htrace
    have hplaying : Playing id told := by
      rw [htold]
      exact ⟨hs.sound.note _, hs.ticking⟩
    obtain ⟨l, hl, hnot⟩ := hcalled told hplaying
    refine ⟨l, [.notice (.entered source c.owner label index)], ?_, by simp [Entry.site?], hnot⟩
    rw [hl, htold]
    rfl
  · have htold : told = s := if_neg htrace
    obtain ⟨l, hl, hnot⟩ := hcalled told (by rwa [htold])
    exact ⟨l, [], by rw [hl, htold]; rfl, by simp, hnot⟩

/-- The turn in which a sequence comes to one of its steps enters that step first, and once. -/
theorem Conductor.takeTurn_enters {run : Runner} (hrun : run.Follows) {s : Stage} (hs : s.Sound)
    (hdue : s.Due id) (hfree : (s.sequence id).ticking = false)
    (hfresh : (s.sequence id).entered = false)
    (hc : (s.sequence id).current < (s.sequence id).stepCount) (dt : Float32) :
    ∃ l n, (takeTurn run dt id s).2.journal =
        l ++ .called (.top id (s.sequence id).current) .enter :: (n ++ s.journal) ∧
      (∀ e ∈ n, e.site? = none) ∧
      ∀ e ∈ l, e ≠ .called (.top id (s.sequence id).current) .enter := by
  have hpart := List.getElem?_eq_getElem (l := (s.sequence id).parts) hc
  generalize (s.sequence id).parts[(s.sequence id).current] = part at hpart
  have hlent := hs.playing (s.lt_of_running hdue.running)
  let cue : Cue := { owner := (s.sequence id).name, site := .top id (s.sequence id).current }
  have hplay : ∃ l n, (playPart run dt id (s.sequence id) part
      (part.progress, s.lending id)).2.2.journal =
        l ++ .called cue.site .enter :: (n ++ (s.lending id).journal) ∧
      (∀ e ∈ n, e.site? = none) ∧ ∀ e ∈ l, e ≠ .called cue.site .enter := by
    rw [playPart, hfresh]
    exact cue.drive_enters rfl (Step.enter_follows hrun _ cue) (Step.tick_follows hrun _ cue)
      (Step.exit_follows hrun _ cue) part.progress hlent
  rcases hr : playPart run dt id (s.sequence id) part (part.progress, s.lending id) with ⟨r, p, t⟩
  rw [hr, s.journal_lending] at hplay
  obtain ⟨l, n, hl, hn, hnot⟩ := hplay
  have hafter : ∃ l', (takeTurn run dt id s).2.journal = l' ++ t.journal ∧
      ∀ e ∈ l', e.site? = none := by
    rw [takeTurn_driven hdue hpart hfree hr]
    cases r with
    | error e => exact ⟨[], rfl, by simp⟩
    | ok status =>
      obtain ⟨l', hl', hsilent⟩ := t.calls_afterPlay id (s.sequence id) ⟨part.step, p⟩ (.ok status)
      exact ⟨l', (Stage.journal_sweep _ id).trans hl', hsilent⟩
  obtain ⟨l', hl', hsilent⟩ := hafter
  have hl : t.journal = l ++ .called cue.site .enter :: (n ++ .turn id .driven :: s.journal) := hl
  refine ⟨l' ++ l, n ++ [.turn id .driven], ?_, ?_, ?_⟩
  · rw [hl', hl]
    simp [cue]
  · intro e he
    rcases List.mem_append.mp he with he | he
    · exact hn e he
    · rw [List.mem_singleton.mp he]
      rfl
  · intro e he
    rcases List.mem_append.mp he with he | he
    · rintro rfl
      exact absurd (hsilent _ he) (by simp [Entry.site?])
    · exact hnot e he

end

/-! What a restore leaves -/

namespace Sequence

variable {q : Sequence} {index : Nat}

/-- A sequence that was restored stands beside one that was just built of what is left of it. -/
theorem abreast_resumed {id : Nat} {M : Milieu id q.name} {run : Runner}
    {resolve : String → EntityId} (hbuilt : q.BuiltBy resolve) (hpaused : q.paused = false)
    (hfree : q.ticking = false)
    (hsteps : ∀ step ∈ q.steps.drop (min index q.stepCount),
      step.isStateless = true ∧ step.Apart M run) :
    (q.resumed index).Abreast M run (min index q.stepCount)
      (Sequence.build resolve
        { name := q.name, steps := q.steps.drop (min index q.stepCount) }).begun where
  name := rfl
  veil := by
    simp [Sequence.veil, resumed, begun, rewound, build, hpaused, hfree]
  unpaused := rfl
  running := rfl
  free := rfl
  count := by
    have hlength := q.length_steps
    simp only [stepCount, resumed, begun, rewound, build, List.length_map, List.length_drop] at *
    omega
  parts i part hi := by
    simp only [begun, rewound, build, List.getElem?_map, List.getElem?_drop, steps,
      Option.map_eq_some_iff] at hi
    obtain ⟨step, ⟨old, hold, rfl⟩, rfl⟩ := hi
    have hmem : old.step ∈ q.steps.drop (min index q.stepCount) := by
      apply List.mem_of_getElem? (i := i)
      simp [steps, hold]
    have hfresh : old.step.Agree false old.progress (old.step.fresh resolve) :=
      Step.Agree.common old.step _ _ _ (hbuilt old (List.mem_of_getElem? hold)).agree
        (Step.Agree.refl old.step false _)
    refine ⟨hsteps _ hmem, old.progress, ?_, hfresh⟩
    rw [Nat.add_comm]
    exact hold

end Sequence

theorem Conductor.restore_apply {s : Stage} {name : String} {id : Nat} (hs : s.Sound)
    (hn : s.find? name = some id) (index : Nat) :
    let k := min index (s.sequence id).stepCount
    let t := (s.restoring id index).note (.notice (.restored name k))
    restore ⟨name, index⟩ s = (.ok true, t) ∧ t.sequence id = (s.sequence id).resumed index ∧
      t.journal = .notice (.restored name k) :: .moved id (.restored index) k ::
        .restored id (s.sequence id).running :: s.journal := by
  intro k t
  have hid := (hs.named name id hn).1
  have hresumed : (s.modify id (Sequence.resumed index)).sequence id =
      (s.sequence id).resumed index := s.sequence_modify_self _ hid
  have hrestoring : (s.restoring id index).sequence id = (s.sequence id).resumed index := by
    simp [Stage.restoring, hresumed]
  refine ⟨?_, hrestoring, ?_⟩
  · rw [restore, onNamed_some hn]
    show (Except.ok true, (s.restoring id index).note
      (.notice (.restored name ((s.restoring id index).sequence id).current))) = _
    rw [hrestoring]
    rfl
  · have hcurrent : ((s.modify id (Sequence.resumed index)).sequence id).current = k := by
      rw [hresumed]
      rfl
    simp [t, Stage.restoring, hcurrent]

/-- A restore of a sequence that is registered and not paused, at whatever index and whatever the
sequence was doing, sets it running there and calls nobody. The step at the index is entered first,
and once, in the next turn. If the steps from there on are stateless and keep away from the
sequence, the turns from then on are reported like those of a sequence that was just built of
these steps and started, whatever the worlds are in which they are taken: the same calls with the
same answers and the same effects, until the turn that completes the sequence. -/
theorem restore_resumes {calm : Bool} {settings : Settings} {host : Host} {s : Stage}
    {name : String} {id : Nat} (h : Session calm (.opening settings host) s)
    (hn : s.find? name = some id) (hp : (s.sequence id).paused = false) (index : Nat) :
    let q := s.sequence id
    let k := min index q.stepCount
    ∃ t, Conductor.restore ⟨name, index⟩ s = (.ok true, t) ∧
      Conductor.capture name t = (.ok (some ⟨name, k⟩), t) ∧ id ∈ t.active ∧
      t.journal = .notice (.restored name k) :: .moved id (.restored index) k ::
        .restored id q.running :: s.journal ∧
      (k < q.stepCount → ∀ (run : Runner) (dt : Float32) (u : Stage),
        (∀ c v, Session (run c v).1.isOk v (run c v).2) → u.Sound →
        u.sequence id = t.sequence id →
        ∃ l n, (Conductor.takeTurn run dt id u).2.journal =
            l ++ .called (.top id k) .enter :: (n ++ u.journal) ∧
          (∀ e ∈ n, e.site? = none) ∧ ∀ e ∈ l, e ≠ .called (.top id k) .enter) ∧
      ∃ resolve, q.BuiltBy resolve ∧ ∀ (run : Runner) (M : Milieu id name),
        (∀ step ∈ q.steps.drop k, step.isStateless = true ∧ step.Apart M run) →
        ∀ frames : List (Float32 × Stage), (∀ f ∈ frames, M.world f.2) →
          (Conductor.turns run id frames (t.sequence id)).map
              (Option.map (TurnReport.veil id name 0)) =
            (Conductor.turns run id frames
              (Sequence.build resolve { name, steps := q.steps.drop k }).begun).map
                (Option.map (TurnReport.veil id name k)) := by
  intro q k
  have hs := h.sound
  obtain ⟨hid, hname⟩ := hs.named name id hn
  obtain ⟨hrestore, hresumed, hjournal⟩ := Conductor.restore_apply hs hn index
  have hfree : q.ticking = false := h.resting id
  refine ⟨_, hrestore, ?_, ?_, hjournal, ?_, ?_⟩
  · have hfind : ((s.restoring id index).note (.notice (.restored name k))).find? name =
        some id := by
      simpa [Stage.restoring] using hn
    rw [Conductor.capture, Conductor.onNamed_some hfind]
    show (Except.ok (some (Stage.sequence _ id).bookmark), _) = _
    rw [hresumed]
    simp [Sequence.bookmark, Sequence.resumed, hname, k, q]
  · rw [Stage.restoring, Stage.active_note, Stage.mem_active_enlist]
    exact .inl rfl
  · intro hk run dt u callbacks hu hsame
    rw [hresumed] at hsame
    have hrun : run.Follows := fun c v => (callbacks c v).leads
    have hdue : u.Due id := ⟨by rw [hsame]; exact hp, by rw [hsame]; rfl⟩
    have henters := Conductor.takeTurn_enters hrun hu hdue (by rw [hsame]; exact hfree)
      (by rw [hsame]; rfl) (by rw [hsame]; exact hk) dt
    rw [hsame] at henters
    exact henters
  · obtain ⟨resolve, hbuilt⟩ := h.built id
    refine ⟨resolve, hbuilt, fun run M hsteps frames hframes => ?_⟩
    subst hname
    rw [hresumed]
    exact (Sequence.abreast_resumed hbuilt hp hfree hsteps).turns frames hframes

/-- Restored in the middle of a group, to the beginning of that group. -/
theorem restore_resumes_midway :
    let a : Outline Command := {
      name := "a"
      steps := [.frames 1, .group [.frames 2, .call [.edit (.flag "x" true)]], .frames 3] }
    let s₀ := ((Stage.opening {} {}).step (.register a)).2
    let s := (s₀.run false [.start "a", .tick 1 (some 2)]).2
    (s.find? "a" = some 0 ∧ (s.sequence 0).paused = false ∧ (s.sequence 0).entered = true ∧
      (s.sequence 0).current = 1) ∧
    ∃ t, Conductor.restore ⟨"a", 1⟩ s = (.ok true, t) ∧
      Conductor.capture "a" t = (.ok (some ⟨"a", 1⟩), t) ∧
      ∃ resolve, ∀ frames : List (Float32 × Stage),
        (∀ f ∈ frames, (Milieu.anywhere 0 "a").world f.2) →
        (Conductor.turns (perform 1) 0 frames (t.sequence 0)).map
            (Option.map (TurnReport.veil 0 "a" 0)) =
          (Conductor.turns (perform 1) 0 frames
            (Sequence.build resolve { name := "a", steps := a.steps.drop 1 }).begun).map
              (Option.map (TurnReport.veil 0 "a" 1)) := by
  intro a s₀ s
  have hfirst : Session true (.opening {} {}) s₀ :=
    Session.perform maxDepth (.register a) (.opening {} {})
  have hcalm : s₀.calmly [.start "a", .tick 1 (some 2)] = true := by decide +kernel
  have hlater : Session true s₀ s := hcalm ▸ Session.run false _ s₀
  have hn : s.find? "a" = some 0 := by decide +kernel
  have hp : (s.sequence 0).paused = false := by decide +kernel
  have hcount : min 1 (s.sequence 0).stepCount = 1 := by decide +kernel
  have hsteps : (s.sequence 0).steps = a.steps := by
    have hlasts := (hlater.leads.lasts hfirst.sound).2
    exact (hlasts.steps 0 (by decide +kernel)).trans rfl
  obtain ⟨t, hrestore, hcapture, -, -, -, resolve, -, hturns⟩ :=
    restore_resumes (hfirst.trans hlater) hn hp 1
  rw [hcount] at hcapture hturns
  rw [hsteps] at hturns
  refine ⟨⟨hn, hp, by decide +kernel, by decide +kernel⟩, t, hrestore, hcapture, resolve, ?_⟩
  apply hturns (perform 1) (Milieu.anywhere 0 "a")
  have hcall : (performAll (perform 1) [.edit (.flag "x" true)]).Apart
      (Milieu.anywhere 0 "a") := by
    apply performAll_apart
    intro c hc k
    rw [List.mem_singleton.mp hc]
    exact Change.apply_veils _
  intro step hstep
  have hcases : step = .group [.frames 2, .call [.edit (.flag "x" true)]] ∨ step = .frames 3 := by
    simpa [a] using hstep
  rcases hcases with rfl | rfl
  · exact ⟨rfl, trivial, hcall, trivial⟩
  · exact ⟨rfl, trivial⟩

/-- A choice is restored while its second list is under way. Its condition panics as it is entered
again, the host goes on, and the choice goes on with that second list, where it was. Just built and
started in the same world, it would enter its first list in that frame. -/
theorem restored_choice_keeps_its_list :
    let a : Outline Command := {
      name := "a"
      steps := [.choose { test := .all [.flag "f", .panic "p"] } [.frames 1] [.frames 5]] }
    let s := ((Stage.opening {} {}).run false [.register a, .start "a", .tick 1 none,
      .edit (.flag "f" true), .restore (.at ⟨"a", 0⟩), .tick 1 none]).2
    let u := ((Stage.opening {} {}).run false [.register a, .edit (.flag "f" true), .start "a",
      .tick 1 none]).2
    let σ : Site := .top 0 0
    (s.newEntries (s.step (.tick 1 none)).2).filterMap Entry.site? =
      [σ, .otherwise σ 0, .otherwise σ 0, σ] ∧
    (u.newEntries (u.step (.tick 1 none)).2).filterMap Entry.site? =
      [σ, .child σ 0, .child σ 0, .child σ 0, .child σ 0, .child σ 0, .child σ 0, σ, σ, σ] := by
  decide +kernel

end Sequencer
