import Sequencer.Proofs.InStep.Others
import Sequencer.Proofs.InStep.Outcomes
import Sequencer.Proofs.Restore.Turns

/-!
# A list in step with a sequence

A sequence, and a list that advances past failures, over the same steps. Frame by frame they make
the same calls and stand at the same step. The list tells that it is done in the frame in which its
last child settles; the sequence completes in the next one.
-/

set_option autoImplicit false

namespace Sequencer

def partsOf : (l : List (Step Command)) → Children l → List Part
  | [], _ => []
  | s :: rest, c => ⟨s, c.1⟩ :: partsOf rest c.2

theorem length_partsOf : (l : List (Step Command)) → (c : Children l) →
    (partsOf l c).length = l.length
  | [], _ => rfl
  | _ :: rest, c => congrArg (· + 1) (length_partsOf rest c.2)

theorem partsOf_fresh (resolve : String → EntityId) (l : List (Step Command)) :
    partsOf l (freshChildren resolve l) = l.map (Part.build resolve) := by
  induction l with
  | nil => rfl
  | cons s rest ih => exact congrArg (Part.build resolve s :: ·) ih

theorem step_mem_of_partsOf : {l : List (Step Command)} → {c : Children l} → {part : Part} →
    part ∈ partsOf l c → part.step ∈ l
  | _ :: _, _, _, .head _ => List.mem_cons_self
  | _ :: _, _, _, .tail _ h => List.mem_cons_of_mem _ (step_mem_of_partsOf h)

/-- A child of a list is driven by itself. -/
theorem driveNth_apply (run : Runner) (dt : Float32) (cue : Cue) (index : Nat) (fresh : Bool) :
    {l : List (Step Command)} → {n : Nat} → {c : Children l} → {part : Part} →
    (partsOf l c)[n]? = some part → (s : Stage) →
    let r := cue.drive .flow part.step.label index dt fresh (part.step.enter run cue)
      (part.step.tick run dt cue) (part.step.exit run cue) (part.progress, s)
    ∃ c', driveNth run dt l cue index n fresh (c, s) = (r.1, c', r.2.2) ∧
      partsOf l c' = (partsOf l c).set n ⟨part.step, r.2.1⟩
  | s :: rest, 0, c, part, h, u => by
    obtain rfl := Option.some.inj h
    exact ⟨(_, c.2), rfl, rfl⟩
  | s :: rest, n + 1, c, part, h, u => by
    obtain ⟨c', hdrive, hparts⟩ := driveNth_apply run dt cue index fresh (l := rest) (n := n) h u
    refine ⟨(c.1, c'), ?_, congrArg (Part.mk s c.1 :: ·) hparts⟩
    show Play.second (driveNth run dt rest cue index n fresh) (c, u) = _
    simp only [Play.second, Play.part, hdrive]
    rfl

namespace Track

variable {π : Type}

def driven (t : Track π) (children : π) : Except Halt Status → Track π
  | .ok status =>
    if status.isTerminal then ⟨t.cursor + 1, false, children⟩ else ⟨t.cursor, true, children⟩
  | .error _ => ⟨t.cursor, true, children⟩

theorem tick_done {length : Nat} {drive : Nat → Bool → Play π Status} {t : Track π}
    (h : length ≤ t.cursor) (s : Stage) :
    Track.tick length .advance drive (t, s) = (.ok .succeeded, t, s) := by
  simp only [Track.tick, Play.bind_apply, Play.read, Nat.not_lt.mpr h, if_false]
  rfl

/-- While there is a child at the cursor it is driven, and the list goes on until none is left. -/
theorem tick_driven {length : Nat} {drive : Nat → Bool → Play π Status} {t : Track π}
    (h : t.cursor < length) {s u : Stage} {r : Except Halt Status} {children : π}
    (hdrive : drive t.cursor (!t.entered) (t.children, s) = (r, children, u)) :
    Track.tick length .advance drive (t, s) =
      (r.map fun _ => if (t.driven children r).cursor < length then .running else .succeeded,
        t.driven children r, u) := by
  simp only [Track.tick, Play.bind_apply, Play.read, h, if_true, Play.change, onChildren, Play.part,
    hdrive]
  cases r with
  | error e => rfl
  | ok status =>
    cases status with
    | running =>
      simp [driven, Except.map, Status.isRunning, Status.isTerminal, h]
      rfl
    | succeeded =>
      simp [driven, Except.map, Status.isRunning, Status.isTerminal]
      rfl
    | failed =>
      simp [driven, Except.map, Status.isRunning, Status.isTerminal]
      rfl

end Track

structure Sequence.Beside {l : List (Step Command)} (name : String) (q : Sequence)
    (t : Track (Children l)) : Prop where
  name : q.name = name
  parts : q.parts = partsOf l t.children
  cursor : q.current = t.cursor
  entered : q.entered = t.entered
  running : q.running = true
  unpaused : q.paused = false
  free : q.ticking = false

def Sequence.afterPlay (q : Sequence) (part : Part) : Except Halt Status → Sequence
  | .ok status => q.driven part status
  | .error _ => { q.withPart q.current part with entered := true }

/-- A step comes back that has left its own sequence alone. -/
theorem Stage.sequence_afterPlay {s t : Stage} {id : Nat} (hid : id < s.sequences.length)
    (hfree : (s.sequence id).ticking = false) (hidt : id < t.sequences.length)
    (ht : t.sequence id = (s.lending id).sequence id) (part : Part) (r : Except Halt Status) :
    (t.afterPlay id (s.sequence id) part r).sequence id = (s.sequence id).afterPlay part r := by
  cases r with
  | error e => exact sequence_returning hid hfree hidt ht part
  | ok status => exact sequence_afterPlay_ok hid hfree hidt ht part status

theorem Sequence.Beside.driven {l : List (Step Command)} {name : String} {q : Sequence}
    {t : Track (Children l)} (h : q.Beside name t) {part : Part} {p : part.step.Progress}
    {c : Children l} (hc : partsOf l c = (partsOf l t.children).set t.cursor ⟨part.step, p⟩)
    (r : Except Halt Status) :
    Sequence.Beside name (q.afterPlay ⟨part.step, p⟩ r) (t.driven c r) := by
  have hparts : q.parts.set q.current ⟨part.step, p⟩ = partsOf l c := by
    rw [h.parts, h.cursor, hc]
  cases r with
  | error e => exact ⟨h.name, hparts, h.cursor, rfl, h.running, h.unpaused, h.free⟩
  | ok status =>
    simp only [Sequence.afterPlay, Sequence.driven, Track.driven]
    split
    · exact ⟨h.name, hparts, congrArg (· + 1) h.cursor, rfl, h.running, h.unpaused, h.free⟩
    · exact ⟨h.name, hparts, h.cursor, rfl, h.running, h.unpaused, h.free⟩

/-- A turn of a sequence and a frame of a list at `σ`, in equal worlds. -/
structure SameFrame {π : Type} (id : Nat) (name : String) (σ : Site) (length : Nat) (w : Stage)
    (x : Except Halt Unit × Stage) (y : Except Halt Status × Track π × Stage) : Prop where
  /-- The same was noted, of the steps of the sequence and of the children of the list. -/
  entries : ∃ l back, y.2.2.journal = l.map (Entry.rehome id name σ) ++ w.journal ∧
    x.2.journal = back ++ (l ++ .turn id .driven :: w.journal) ∧ ∀ e ∈ back, e.call? = none
  world : y.2.2 = { x.2.seating id (w.sequence id) with journal := y.2.2.journal }
  cursor : (x.2.sequence id).current = y.2.1.cursor
  running : (x.2.sequence id).running = true
  /-- The list is done as soon as its last child has settled. -/
  result : y.1 = x.1.map fun _ => if y.2.1.cursor < length then .running else .succeeded

section

variable {id : Nat} {name : String} {M : Milieu id name} {run : Runner} {l : List (Step Command)}
  {q : Sequence} {t : Track (Children l)} {w : Stage}

/-- A step is called alike for a sequence and, in its place, for a list. -/
theorem Conductor.playPart_rehomed (dt : Float32) {v lent : Sequence} (hv : v.Resembles lent)
    (σ : Site) (j₀ j : List Entry) {part : Part} (h : part.step.Aloof M run)
    (hname : q.name = name) :
    let cue : Cue := .child ⟨name, σ⟩ q.current
    Play.Alike (M.rehomed σ hv j₀ j) (playPart run dt id q part)
      (cue.drive .flow part.step.label q.current dt (!q.entered) (part.step.enter run cue)
        (part.step.tick run dt cue) (part.step.exit run cue)) := by
  intro cue
  let top : Cue := { owner := q.name, site := .top id q.current }
  have hsite : (Site.top id q.current).rehome id σ = .child σ q.current := if_pos rfl
  have hcue : (M.rehomed σ hv j₀ j).cue top = cue := by
    rw [Likeness.cue]
    exact congr (congrArg Cue.mk hname) hsite
  have halike := h.alike σ hv j₀ j
  have hdrive : Play.Alike (M.rehomed σ hv j₀ j) (playPart run dt id q part)
      (((M.rehomed σ hv j₀ j).cue top).drive .flow part.step.label q.current dt (!q.entered)
        (part.step.enter run ((M.rehomed σ hv j₀ j).cue top))
        (part.step.tick run dt ((M.rehomed σ hv j₀ j).cue top))
        (part.step.exit run ((M.rehomed σ hv j₀ j).cue top))) :=
    Cue.drive_alike trivial
      (fun _ _ hst => hst.note (by simp [Disguise.rehomed, Entry.rehome, Notice.rehome, hname]))
      (fun _ _ _ hst => hst.note (by simp [Disguise.rehomed, Entry.rehome, Notice.rehome, hname]))
      (Step.enter_alike part.step top trivial halike)
      (Step.tick_alike part.step top trivial hname halike) (Step.exit_alike part.step top halike)
  rwa [hcue] at hdrive

namespace Stage

theorem seating_modify (s : Stage) (f : Sequence → Sequence) (v : Sequence) :
    (s.modify id f).seating id v = s.seating id v := s.modify_modify id f fun _ => v

theorem veil_seating (s : Stage) (k : Nat) (v : Sequence) (j : List Entry) :
    (s.veil id k j).seating id v = { s.seating id v with journal := j } :=
  congrArg (fun u : Stage => { u with journal := j }) (s.seating_modify (Sequence.veil k) v)

/-- Nobody is called by what is noted when a step comes back. -/
theorem call?_backNotes (cursor : Nat) (r : Except Halt Status) :
    ∀ e ∈ backNotes id cursor r, e.call? = none := by
  cases r with
  | error e => exact nofun
  | ok status =>
    simp only [backNotes]
    split <;> simp [Entry.call?]

/-- What is lent by a sequence is not seen where another one is in its place. -/
theorem seating_lending (w : Stage) (q : Sequence) (j : List Entry) :
    { ((w.seating id q).lending id).seating id (w.sequence id) with journal := j } =
      { w with journal := j } := by
  have hw : (w.seating id q).seating id (w.sequence id) = w :=
    (w.seating_modify (fun _ => q) _).trans (w.modify_self id)
  rw [lending, seating_modify, seating_modify]
  exact congrArg (fun u : Stage => { u with journal := j }) hw

/-- What comes back into a sequence is not seen where another one is in its place. -/
theorem seating_afterPlay {u : Stage} (hgeneration : (u.sequence id).generation = q.generation)
    (part : Part) (r : Except Halt Status) (v : Sequence) (j : List Entry) :
    { (u.afterPlay id q part r).seating id v with journal := j } =
      { u.seating id v with journal := j } := by
  rw [← veil_seating _ 0, (afterPlay_veil hgeneration part r).2, seating_modify, veil_seating]

end Stage

/-- The step at the cursor, driven by the sequence that stands in the place of another one, and
driven by the list in that place. -/
theorem Sequence.Beside.play (h : q.Beside name t) {part : Part}
    (hpart : (partsOf l t.children)[t.cursor]? = some part) (haloof : part.step.Aloof M run)
    (hw : M.world w) (hv : (w.sequence id).Resembles q) (σ : Site) (dt : Float32) :
    let s := w.seating id q
    ∃ r p u n c,
      Conductor.playPart run dt id q part (part.progress, s.lending id) = (r, p, u) ∧
      (M.world u ∧ u.sequence id = (s.lending id).sequence id ∧
        u.journal = n ++ .turn id .driven :: w.journal) ∧
      driveNth run dt l (Cue.child ⟨name, σ⟩ t.cursor) t.cursor t.cursor (!t.entered)
          (t.children, w) =
        (r, c, { u.seating id (w.sequence id) with
          journal := n.map (Entry.rehome id name σ) ++ w.journal }) ∧
      partsOf l c = (partsOf l t.children).set t.cursor ⟨part.step, p⟩ := by
  intro s
  have hs : M.world s := Milieu.seating hw h.name
  have hlent : (s.lending id).sequence id = { q with entered := true, ticking := true } := by
    rw [s.sequence_lending_self (M.placed s hs), w.sequence_seating (M.placed w hw)]
  have hresembles : (w.sequence id).Resembles ((s.lending id).sequence id) := by
    rw [hlent]
    exact ⟨hv.name, hv.running, hv.paused⟩
  have hrelated : (M.rehomed σ hresembles (.turn id .driven :: w.journal) w.journal).related
      (s.lending id) w :=
    ⟨Milieu.lending hs, rfl, [], rfl, (w.seating_lending q w.journal).symm⟩
  have halike := Conductor.playPart_rehomed dt hresembles σ (.turn id .driven :: w.journal)
    w.journal haloof h.name part.progress _ _ hrelated
  rw [h.cursor, h.entered] at halike
  obtain ⟨c, hdrive, hchildren⟩ := driveNth_apply run dt (Cue.child ⟨name, σ⟩ t.cursor) t.cursor
    (!t.entered) hpart w
  rcases hplay : Conductor.playPart run dt id q part (part.progress, s.lending id) with ⟨r, p, u⟩
  rw [hplay] at halike
  obtain ⟨hr, hp, hu, hkept, n, hn, hafter⟩ := halike
  rw [hr, hafter] at hdrive
  rw [hp] at hchildren
  exact ⟨r, p, u, n, c, rfl, ⟨hu, hkept, hn⟩, hdrive, hchildren⟩

/-- One turn and one frame. -/
theorem Sequence.Beside.frame (h : q.Beside name t) (hl : ∀ s ∈ l, s.Aloof M run)
    (hw : M.world w) (hv : (w.sequence id).Resembles q) (hc : t.cursor < l.length) (σ : Site)
    (dt : Float32) :
    let x := Conductor.takeTurn run dt id (w.seating id q)
    let y := Track.frame run dt ⟨name, σ⟩ l (t, w)
    SameFrame id name σ l.length w x y ∧ (x.2.sequence id).Beside name y.2.1 := by
  intro x y
  let s := w.seating id q
  have hid : id < s.sequences.length := M.placed s (Milieu.seating hw h.name)
  have hq : s.sequence id = q := w.sequence_seating (M.placed w hw)
  have hdue : s.Due id := ⟨by rw [hq, h.unpaused], by rw [hq, h.running]⟩
  have hfree : (s.sequence id).ticking = false := by rw [hq, h.free]
  have hlt : t.cursor < (partsOf l t.children).length := by rwa [length_partsOf]
  have hpart := List.getElem?_eq_getElem hlt
  generalize (partsOf l t.children)[t.cursor] = part at hpart
  have hmem := step_mem_of_partsOf (List.mem_of_getElem? hpart)
  obtain ⟨r, p, u, n, c, hplay, ⟨hu, hkept, hn⟩, hdrive, hchildren⟩ :=
    h.play hpart (hl _ hmem) hw hv σ dt
  have hidu := M.placed u hu
  rw [← h.cursor, ← h.parts, ← hq] at hpart
  have hplay : Conductor.playPart run dt id (s.sequence id) part (part.progress, s.lending id) =
      (r, p, u) := by
    rw [hq]
    exact hplay
  have hx : x = _ := Conductor.takeTurn_kept hdue hfree hpart hplay hidu hkept
  have hy : y = _ := Track.tick_driven hc hdrive
  have hbeside := h.driven hchildren r
  have hrecord : (u.afterPlay id (s.sequence id) ⟨part.step, p⟩ r).sequence id =
      q.afterPlay ⟨part.step, p⟩ r := by
    rw [Stage.sequence_afterPlay hid hfree hidu hkept, hq]
  rw [← hrecord] at hbeside
  have hgeneration : (u.sequence id).generation = (s.sequence id).generation := by
    rw [hkept, s.sequence_lending_self hid]
  rw [hx, hy]
  refine ⟨⟨?_, ?_, hbeside.cursor, hbeside.running, ?_⟩, hbeside⟩
  · obtain ⟨hjournal, -⟩ := Stage.afterPlay_veil (k := 0) hgeneration ⟨part.step, p⟩ r
    exact ⟨n, _, rfl, by rw [hjournal, hn], Stage.call?_backNotes _ r⟩
  · exact (Stage.seating_afterPlay hgeneration ⟨part.step, p⟩ r _ _).symm
  · cases r <;> rfl

end

/-- The turns of a sequence and the frames of a list at `σ`, each in a world of its own. They are
alike as long as the list has children to drive. When it has none it is done at once, and the
sequence completes: it calls no step, and its callback is told. -/
def InStep (run : Runner) (id : Nat) (name : String) (σ : Site) {l : List (Step Command)} :
    List (Float32 × Stage) → Sequence → Track (Children l) → Prop
  | [], _, _ => True
  | (dt, w) :: rest, q, t =>
    let x := Conductor.takeTurn run dt id (w.seating id q)
    let y := Track.frame run dt ⟨name, σ⟩ l (t, w)
    if t.cursor < l.length then
      SameFrame id name σ l.length w x y ∧ InStep run id name σ rest (x.2.sequence id) y.2.1
    else
      y = (.ok .succeeded, t, w) ∧
      (x = match Conductor.finish run id ((w.seating id q).note (.turn id .completed)) with
        | (.ok _, u) => (.ok (), u.sweep id)
        | (.error e, u) => (.error e, u)) ∧
      (run.Follows → ∃ l b n, x.2.journal =
        l ++ .notified id name .completed b :: .notice n :: .turn id .completed :: w.journal)

section

variable {id : Nat} {name : String} {M : Milieu id name} {run : Runner} {l : List (Step Command)}
  {q : Sequence} {t : Track (Children l)}

/-- The turn after the last child has settled. -/
theorem Sequence.Beside.completes (h : q.Beside name t) {w : Stage} (hw : M.world w)
    (hc : l.length ≤ t.cursor) (dt : Float32) :
    let x := Conductor.takeTurn run dt id (w.seating id q)
    (x = match Conductor.finish run id ((w.seating id q).note (.turn id .completed)) with
      | (.ok _, u) => (.ok (), u.sweep id)
      | (.error e, u) => (.error e, u)) ∧
    (run.Follows → ∃ l b n, x.2.journal =
      l ++ .notified id name .completed b :: .notice n :: .turn id .completed :: w.journal) := by
  intro x
  have hq : (w.seating id q).sequence id = q := w.sequence_seating (M.placed w hw)
  have hdue : (w.seating id q).Due id := ⟨by rw [hq, h.unpaused], by rw [hq, h.running]⟩
  have hend : ((w.seating id q).sequence id).stepCount ≤
      ((w.seating id q).sequence id).current := by
    rw [hq, Sequence.stepCount, h.parts, length_partsOf, h.cursor]
    exact hc
  constructor
  · have hx : x = _ := Conductor.takeTurn_unpaused hdue.unpaused
    rwa [Conductor.turn_completed hdue.running hend] at hx
  · intro hrun
    have hx : x.2.journal = _ := Conductor.journal_takeTurn run dt hdue.unpaused
    rcases hturn : Conductor.turn run dt id (w.seating id q) with ⟨r, v⟩
    obtain ⟨l, b, n, hl⟩ := Conductor.turn_completes hrun hdue hend hturn
    rw [hx, hturn, hl, hq, h.name, List.append_assoc]
    exact ⟨l, b, n, rfl⟩

theorem Sequence.Beside.inStep (h : q.Beside name t) (hl : ∀ s ∈ l, s.Aloof M run) (σ : Site)
    (frames : List (Float32 × Stage))
    (hframes : ∀ f ∈ frames, M.world f.2 ∧ (f.2.sequence id).Resembles q) :
    InStep run id name σ frames q t := by
  induction frames generalizing q t with
  | nil => trivial
  | cons f rest ih =>
    obtain ⟨dt, w⟩ := f
    obtain ⟨hw, hv⟩ := hframes _ List.mem_cons_self
    rw [InStep]
    by_cases hc : t.cursor < l.length
    · rw [if_pos hc]
      obtain ⟨hsame, hbeside⟩ := h.frame hl hw hv hc σ dt
      refine ⟨hsame, ih hbeside fun f hf => ?_⟩
      obtain ⟨hworld, hresembles⟩ := hframes f (List.mem_cons_of_mem _ hf)
      exact ⟨hworld, hresembles.name.trans (h.name.trans hbeside.name.symm),
        hresembles.running.trans (h.running.trans hbeside.running.symm),
        hresembles.paused.trans (h.unpaused.trans hbeside.unpaused.symm)⟩
    · rw [if_neg hc]
      exact ⟨Track.tick_done (Nat.not_lt.mp hc) w, h.completes hw (Nat.not_lt.mp hc) dt⟩

/-- A sequence that was just started and is not paused, and a list over the same steps that advances
past failures and was just rewound, if the steps do not operate on the sequence they belong to:
driven once a frame, in whatever worlds, where whoever is in the place of the sequence has its name
and its flags, they make the same calls with the same effects and stand at the same step after every
frame. In the frame in which the last child settles the list has succeeded; the sequence completes
in the next one, and both at once if there are no steps. Neither's calls nor its cursor depend on
how the children that settle do so: whatever they were to answer in place of what they do, the
steps that are called, the progress and the world that are left would be the same. -/
theorem list_in_step (hl : ∀ s ∈ l, s.Aloof M run) (hname : q.name = name)
    (hpaused : q.paused = false) (hfree : q.ticking = false)
    (hparts : q.parts = partsOf l t.children) (σ : Site) (frames : List (Float32 × Stage))
    (hframes : ∀ f ∈ frames, M.world f.2 ∧ (f.2.sequence id).Resembles q.begun) :
    InStep run id name σ frames q.begun t.rewound ∧
    ∀ f : Status → Status, Status.Recasts f → ∀ dt,
      Play.Alike M.sameCalls (Track.frame run dt ⟨name, σ⟩ l)
        (Track.frameRecast f run dt ⟨name, σ⟩ l) ∧
      ∀ (q' : Sequence) (part : Part), q'.name = name → part.step ∈ l →
        Act.Alike M.sameCalls (Conductor.driveStep run dt id q' part)
          (Conductor.driveBy id q' part (Conductor.playPartRecast f run dt id q' part)) := by
  have hbeside : q.begun.Beside name t.rewound :=
    ⟨hname, hparts, rfl, rfl, rfl, hpaused, hfree⟩
  refine ⟨hbeside.inStep hl σ frames hframes, fun f hf dt => ⟨Track.frame_recast hf hl dt σ, ?_⟩⟩
  exact fun _ _ hq' hpart => Conductor.driveStep_recast hf hq' (hl _ hpart) dt

end

/-- The first child starts another sequence, with a callback; the second one fails in its second
frame; a later one stops the other sequence. -/
theorem list_in_step_past_a_failure :
    let steps : List (Step Command) :=
      [.startSequence "b", .probe "p" [.running, .failed], .call [.edit (.flag "x" true)],
        .stopSequence "b", .frames 2]
    let a : Outline Command := { name := "a", steps }
    let b : Outline Command := { name := "b", onStarted := some [.edit (.flag "y" true)] }
    let calls : Hook → List Command
      | .started => [.edit (.flag "y" true)]
      | _ => []
    let M := Milieu.beside 0 "a" "b" Nat.one_ne_zero calls
    let resolve : String → EntityId := fun label => ⟨label, 0⟩
    let q := Sequence.build resolve a
    let t : Track (Children steps) := { children := freshChildren resolve steps }
    let w := ((Stage.opening {} {}).run false [.register a, .register b, .start "a"]).2
    let frames : List (Float32 × Stage) := List.replicate 7 (1, w)
    let f : Status → Status := fun status => if status.isRunning then .running else .succeeded
    ((∀ s ∈ steps, s.Aloof M (perform 1)) ∧
      q.name = "a" ∧ q.paused = false ∧ q.ticking = false ∧ q.parts = partsOf steps t.children ∧
      ∀ f ∈ frames, M.world f.2 ∧ (f.2.sequence 0).Resembles q.begun) ∧
    InStep (perform 1) 0 "a" (.held "h") frames q.begun t.rewound ∧
    Status.Recasts f ∧
    Play.Alike M.sameCalls (Track.frame (perform 1) 1 ⟨"a", .held "h"⟩ steps)
      (Track.frameRecast f (perform 1) 1 ⟨"a", .held "h"⟩ steps) := by
  intro steps a b calls M resolve q t w frames f
  have hedit : ∀ name, ∀ c ∈ [Command.edit (.flag name true)], (perform 1 c).Aloof M := by
    intro name c hc
    rw [List.mem_singleton.mp hc]
    exact Change.apply_aloof _
  have hcalls : ∀ hook, ∀ c ∈ calls hook, (perform 1 c).Aloof M := by
    intro hook
    cases hook with
    | started => exact hedit "y"
    | completed => exact nofun
    | stopped => exact nofun
  have hneighbour : M.Neighbour "b" 1 calls := Milieu.beside_neighbour Nat.one_ne_zero calls
  have hstart : (startAnother (perform 1) "a" "b").Aloof M := hneighbour.startAnother_aloof hcalls
  have hstop : (Conductor.stop (perform 1) "b").Aloof M := hneighbour.stop_aloof hcalls
  have hsteps : ∀ s ∈ steps, s.Aloof M (perform 1) := by
    simp only [steps, List.forall_mem_cons]
    exact ⟨⟨rfl, hstart⟩, trivial, ⟨rfl, performAll_aloof (hedit "x")⟩, ⟨rfl, hstop⟩,
      trivial, nofun⟩
  have hparts : q.parts = partsOf steps t.children := (partsOf_fresh resolve steps).symm
  have hb : w.sequence 1 = Sequence.build resolve b := rfl
  have hw : M.world w ∧ (w.sequence 0).Resembles q.begun := by
    refine ⟨⟨⟨by decide +kernel, by decide +kernel⟩, ⟨by decide +kernel, by decide +kernel⟩, ?_⟩,
      by decide +kernel, by decide +kernel, by decide +kernel⟩
    intro hook
    rw [hb]
    cases hook <;> rfl
  have hframes : ∀ f ∈ frames, M.world f.2 ∧ (f.2.sequence 0).Resembles q.begun := by
    intro f hf
    rw [List.eq_of_mem_replicate hf]
    exact hw
  have hf : Status.Recasts f := ⟨fun status => by cases status <;> rfl⟩
  obtain ⟨hinstep, houtcomes⟩ :=
    list_in_step hsteps rfl rfl rfl hparts (.held "h") frames hframes
  exact ⟨⟨hsteps, rfl, rfl, rfl, hparts, hframes⟩, hinstep, hf, (houtcomes f hf 1).1⟩

end Sequencer
