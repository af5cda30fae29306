import Sequencer.Proofs.Course.Drive
import Sequencer.Proofs.Restore.Veil
import Sequencer.Proofs.Timing

/-!
# Two sequences side by side

A sequence that stands at one of its steps, and another one that consists of the steps from there
on: if those steps have in common what later calls can read, the two take their turns alike, each
in the place of the other, and have it in common again after every turn.
-/

set_option autoImplicit false

namespace Sequencer

structure TurnReport where
  result : Except Halt Unit
  entries : List Entry
  after : Stage

def TurnReport.veil (id : Nat) (name : String) (k : Nat) (r : TurnReport) : TurnReport :=
  ⟨r.result, r.entries.map (Entry.shift id name k), r.after.veil id k []⟩

def Stage.seating (id : Nat) (q : Sequence) (s : Stage) : Stage := s.modify id fun _ => q

/-- The turns of a sequence, each in a world of its own, until one of them halts or the sequence
completes. The turn in which it completes has no report. -/
def Conductor.turns (run : Runner) (id : Nat) :
    List (Float32 × Stage) → Sequence → List (Option TurnReport)
  | [], _ => []
  | (dt, world) :: rest, q =>
    if q.stepCount ≤ q.current then [none]
    else
      let s := world.seating id q
      let r := takeTurn run dt id s
      some ⟨r.1, s.newEntries r.2, r.2⟩ ::
        if r.1.isOk then turns run id rest (r.2.sequence id) else []

section

variable {id : Nat} {name : String} {M : Milieu id name} {k : Nat} {run : Runner} {dt : Float32}

theorem Conductor.playPart_veils (q : Sequence) (part : Part) (hname : q.name = name)
    (h : part.step.Apart M run) :
    Play.Veils M k (playPart run dt id q part) (playPart run dt id (q.veil k) part) := by
  let cue : Cue := { owner := q.name, site := .top id q.current }
  intro p s hs
  refine Play.Alike.masked (D := .veil id name k) hs ((s.sequence id).veil_resembles k)
    (fun j₀ j => ?_) p
  let L := M.veiled k (s.sequence id) j₀ j
  have hsite : cue.site.shift id k = .top id (q.current + k) := by simp [cue, Site.shift]
  have hcue : L.cue cue = { owner := q.name, site := .top id (q.current + k) } :=
    congrArg (Cue.mk q.name) hsite
  have halike := h.alike k (s.sequence id) j₀ j
  have hdrive : Play.Alike L (playPart run dt id q part)
      ((L.cue cue).drive .sequence part.step.label (q.current + k) dt (!q.entered)
        (part.step.enter run (L.cue cue)) (part.step.tick run dt (L.cue cue))
        (part.step.exit run (L.cue cue))) :=
    Cue.drive_alike trivial
      (fun _ _ hst => hst.note (by simp [Disguise.veil, Entry.shift, Notice.shift, hname]))
      (fun _ _ _ hst => hst.note (by simp [Disguise.veil, Entry.shift, Notice.shift, hname]))
      (Step.enter_alike part.step cue trivial halike)
      (Step.tick_alike part.step cue trivial hname halike) (Step.exit_alike part.step cue halike)
  rw [hcue] at hdrive
  exact hdrive

namespace Stage

theorem sequence_seating (w : Stage) {q : Sequence} (h : id < w.sequences.length) :
    (w.seating id q).sequence id = q := w.sequence_modify_self _ h

theorem seating_veil (w : Stage) (q : Sequence) (j : List Entry) :
    (w.seating id q).veil id k j = { w.seating id (q.veil k) with journal := j } := by
  simp only [seating, veil, modify_modify]

theorem lending_veil (s : Stage) (j : List Entry) : (s.lending id).veil id k j =
    ((s.veil id k j).modify id fun q => { q with entered := true }).modify id
      fun q => { q with ticking := true } := by
  rw [lending, modify_veil (g := fun q => { q with ticking := true }) _ _ fun _ => rfl,
    modify_veil (g := fun q => { q with entered := true }) _ _ fun _ => rfl]
  rfl

end Stage

def Stage.backNotes (id cursor : Nat) : Except Halt Status → List Entry
  | .ok status =>
    if status.isTerminal then [.moved id .settled (cursor + 1), .drove id status]
    else [.drove id status]
  | .error _ => []

def Sequence.back (cursor : Nat) : Except Halt Status → Sequence → Sequence
  | .ok status => fun q =>
    if status.isTerminal then { q with ticking := false, entered := false, current := cursor + 1 }
    else { q with ticking := false }
  | .error _ => fun q => { q with ticking := false }

theorem Stage.backNotes_shift (cursor : Nat) (r : Except Halt Status) :
    (backNotes id cursor r).map (Entry.shift id name k) = backNotes id (cursor + k) r := by
  cases r with
  | error e => rfl
  | ok status =>
    simp only [backNotes]
    split
    · simp only [List.map_cons, List.map_nil, Entry.shift, if_pos]
      rw [Nat.add_right_comm]
    · rfl

/-- Unless the sequence was moved meanwhile, what comes back is told by the answer alone. -/
theorem Stage.afterPlay_veil {t : Stage} {q : Sequence}
    (hgeneration : (t.sequence id).generation = q.generation) (part : Part)
    (r : Except Halt Status) :
    (t.afterPlay id q part r).journal = backNotes id q.current r ++ t.journal ∧
      ∀ j, (t.afterPlay id q part r).veil id k j =
        (t.veil id k j).modify id (Sequence.back (q.current + k) r) := by
  have hreturning : ∀ j, (t.returning id q.current part).veil id k j =
      (t.veil id k j).modify id fun q => { q with ticking := false } := by
    intro j
    apply modify_veil
    exact fun _ => rfl
  cases r with
  | error e => exact ⟨rfl, hreturning⟩
  | ok status =>
    have hback : ((t.returning id q.current part).sequence id).generation = q.generation := by
      rw [← hgeneration]
      apply t.field_modify (·.generation)
      exact fun _ => rfl
    by_cases ht : status.isTerminal = true
    · simp only [afterPlay, advancing, sequence_note, hback, backNotes, ht, and_self, if_true]
      refine ⟨rfl, fun j => ?_⟩
      have hadvance : ((t.returning id q.current part).modify id
          (Sequence.advanced q.current)).veil id k j =
          ((t.returning id q.current part).veil id k j).modify id
            fun v => { v with entered := false, current := q.current + k + 1 } := by
        apply modify_veil
        intro v
        simp [Sequence.veil, Sequence.advanced, Nat.add_right_comm]
      rw [hreturning, modify_modify] at hadvance
      simp only [Sequence.back, ht, if_true]
      exact hadvance
    · simp only [afterPlay, advancing, backNotes, ht]
      refine ⟨rfl, fun j => ?_⟩
      simp only [Sequence.back, ht]
      exact hreturning j

theorem Milieu.seating {w : Stage} (hw : M.world w) {q : Sequence} (hname : q.name = name) :
    M.world (w.seating id q) := by
  have hq : q.name = (w.sequence id).name := hname.trans (M.named w hw).symm
  exact M.elsewhere w _ hw (.modify w (f := fun _ => q) hq)

theorem Milieu.lending {s : Stage} (hs : M.world s) : M.world (s.lending id) := by
  have hturn := M.elsewhere s _ hs (.note id s (.turn id .driven))
  have hentered := M.elsewhere _ _ hturn (.modify _ (f := fun q => { q with entered := true }) rfl)
  exact M.elsewhere _ _ hentered (.modify _ (f := fun q => { q with ticking := true }) rfl)

/-- A turn that drives a step which leaves its own sequence alone. -/
theorem Conductor.takeTurn_kept {s t : Stage} (hdue : s.Due id)
    (hfree : (s.sequence id).ticking = false) {part : Part}
    (hpart : (s.sequence id).parts[(s.sequence id).current]? = some part) {r : Except Halt Status}
    {p : part.step.Progress}
    (hplay : playPart run dt id (s.sequence id) part (part.progress, s.lending id) = (r, p, t))
    (hidt : id < t.sequences.length) (hkept : t.sequence id = (s.lending id).sequence id) :
    takeTurn run dt id s =
      (r.map fun _ => (), t.afterPlay id (s.sequence id) ⟨part.step, p⟩ r) := by
  rw [takeTurn_driven hdue hpart hfree hplay]
  cases r with
  | error e => rfl
  | ok status =>
    have hrecord := Stage.sequence_afterPlay_ok (s.lt_of_running hdue.running) hfree hidt hkept
      ⟨part.step, p⟩ status
    have hrunning : ((s.sequence id).driven ⟨part.step, p⟩ status).running = true := by
      simp only [Sequence.driven]
      split <;> exact hdue.running
    rw [← hrecord] at hrunning
    show (Except.ok (), Stage.sweep id _) = _
    rw [sweep_running hrunning]
    rfl

/-- A turn that drives a step, as it is seen behind the veil. -/
theorem Conductor.takeTurn_veils {s : Stage} (hs : M.world s) (hdue : s.Due id)
    (hfree : (s.sequence id).ticking = false) {part : Part}
    (hpart : (s.sequence id).parts[(s.sequence id).current]? = some part)
    (hapart : part.step.Apart M run) (k : Nat) (dt : Float32) :
    ∃ r p, ∃ t : Stage, ∃ l,
    playPart run dt id ((s.sequence id).veil k) part (part.progress, (s.lending id).veil id k []) =
      (r, p, t.veil id k (l.map (Entry.shift id name k))) ∧
    (takeTurn run dt id s).1 = r.map (fun _ => ()) ∧
    (takeTurn run dt id s).2.journal =
      Stage.backNotes id (s.sequence id).current r ++ (l ++ .turn id .driven :: s.journal) ∧
    (∀ j, (takeTurn run dt id s).2.veil id k j =
      (t.veil id k j).modify id (Sequence.back ((s.sequence id).current + k) r)) ∧
    ∀ status, r = .ok status →
      (takeTurn run dt id s).2.sequence id = (s.sequence id).driven ⟨part.step, p⟩ status := by
  have hid := M.placed s hs
  rcases hplay : playPart run dt id (s.sequence id) part (part.progress, s.lending id)
    with ⟨r, p, t⟩
  have hveils : Play.Veils M k (playPart run dt id (s.sequence id) part)
      (playPart run dt id ((s.sequence id).veil k) part) :=
    playPart_veils _ part (M.named s hs) hapart
  obtain ⟨l, hl, hworld, hkept, hveiled⟩ := hveils part.progress _ (Milieu.lending hs)
  rw [hplay] at hl hworld hkept hveiled
  have hgeneration : (t.sequence id).generation = (s.sequence id).generation := by
    rw [hkept, s.sequence_lending_self hid]
  obtain ⟨hjournal, hback⟩ :=
    Stage.afterPlay_veil (k := k) hgeneration ⟨part.step, p⟩ r
  have hrecord : ∀ status, r = .ok status →
      (t.afterPlay id (s.sequence id) ⟨part.step, p⟩ r).sequence id =
        (s.sequence id).driven ⟨part.step, p⟩ status := by
    rintro status rfl
    exact Stage.sequence_afterPlay_ok hid hfree (M.placed t hworld) hkept ⟨part.step, p⟩ status
  rw [takeTurn_kept hdue hfree hpart hplay (M.placed t hworld) hkept]
  refine ⟨r, p, t, l, ?_, rfl, ?_, hback, hrecord⟩
  · have hv := hveiled []
    rwa [List.append_nil] at hv
  · rw [hjournal, hl, s.journal_lending]

theorem Conductor.playPart_pairs (run : Runner) (dt : Float32) (id : Nat) (v : Sequence)
    (part : Part) (h : part.step.isStateless = true) :
    Play.Pairs (part.step.Agree v.entered) (playPart run dt id v part)
      (playPart run dt id v part) (part.step.Agree true) := by
  apply Cue.drive_pairs
  · intro hf
    rw [show v.entered = false by simpa using hf]
    exact Step.enter_pairs run part.step _ h
  · intro hf p q hpq
    rwa [show v.entered = true by simpa using hf] at hpq
  · exact Step.tick_pairs run dt part.step _ h
  · exact Step.exit_pairs run part.step _

/-- One sequence has `k` steps more than the other before those that it has left. These steps are
the same, with progress in which what is under way agrees, and both sequences stand at the same one
of them. -/
structure Sequence.Abreast (M : Milieu id name) (run : Runner) (k : Nat) (a b : Sequence) :
    Prop where
  name : b.name = name
  veil : a.veil 0 = b.veil k
  unpaused : b.paused = false
  running : b.running = true
  free : b.ticking = false
  count : a.stepCount = b.stepCount + k
  parts : ∀ i part, b.parts[i]? = some part →
    (part.step.isStateless = true ∧ part.step.Apart M run) ∧
    ∃ p, a.parts[i + k]? = some ⟨part.step, p⟩ ∧
      part.step.Agree (b.entered && decide (i = b.current)) p part.progress

namespace Sequence.Abreast

variable {a b : Sequence}

theorem current (h : a.Abreast M run k b) : a.current = b.current + k :=
  congrArg Sequence.current h.veil

/-- The same step was driven in both, with the same answer. -/
theorem driven (h : a.Abreast M run k b) {part : Part} (hpart : b.parts[b.current]? = some part)
    {p p' : part.step.Progress} (hagree : part.step.Agree true p p') (status : Status) :
    (a.driven ⟨part.step, p⟩ status).Abreast M run k (b.driven ⟨part.step, p'⟩ status) := by
  have hlt : b.current < b.parts.length := (List.getElem?_eq_some_iff.mp hpart).1
  have hlta : a.current < a.parts.length := by
    have hcount := h.count
    rw [h.current]
    simp only [stepCount] at hcount
    omega
  -- Whatever the flags become, the step at the cursor agrees as what was under way, the others
  -- as what is not.
  have hparts : ∀ live : Bool, ∀ i part', (b.parts.set b.current ⟨part.step, p'⟩)[i]? = some part' →
      (part'.step.isStateless = true ∧ part'.step.Apart M run) ∧
      ∃ q, (a.parts.set a.current ⟨part.step, p⟩)[i + k]? = some ⟨part'.step, q⟩ ∧
        part'.step.Agree (live && decide (i = b.current)) q part'.progress := by
    intro live i part' hi
    by_cases hcur : i = b.current
    · subst hcur
      rw [List.getElem?_set_self hlt] at hi
      obtain rfl := Option.some.inj hi
      refine ⟨(h.parts _ part hpart).1, p, ?_, ?_⟩
      · rw [← h.current, List.getElem?_set_self hlta]
      · cases live with
        | true => simpa using hagree
        | false => exact Step.Agree.idle part.step _ _ hagree
    · rw [List.getElem?_set_ne (Ne.symm hcur)] at hi
      obtain ⟨hstep, q, hq, hold⟩ := h.parts i part' hi
      refine ⟨hstep, q, ?_, ?_⟩
      · rw [List.getElem?_set_ne (by rw [h.current]; omega)]
        exact hq
      · simpa [hcur] using hold
  have hcount : (a.parts.set a.current ⟨part.step, p⟩).length =
      (b.parts.set b.current ⟨part.step, p'⟩).length + k := by
    simpa [stepCount] using h.count
  obtain ⟨hname, -, -, -, -, -, -, -, -, hrunning, hpaused, -, hticking⟩ :=
    Sequence.mk.inj h.veil
  have hcurrent := h.current
  simp only [Sequence.driven]
  split
  · refine ⟨h.name, ?_, h.unpaused, h.running, h.free, hcount,
      fun i part' hi => hparts false i part' hi⟩
    simp only [Sequence.veil, withPart, hname, hrunning, hpaused, hticking, hcurrent]
    congr 1
    omega
  · refine ⟨h.name, ?_, h.unpaused, h.running, h.free, hcount,
      fun i part' hi => hparts true i part' hi⟩
    simp only [Sequence.veil, withPart, hname, hrunning, hpaused, hticking, hcurrent, Nat.add_zero]

/-- One turn each, on two stages that look the same but for the two sequences. -/
theorem turn {s u : Stage} (hs : M.world s) (hu : M.world u)
    (h : (s.sequence id).Abreast M run k (u.sequence id))
    (hv : s.veil id 0 [] = u.veil id k [])
    (hc : (u.sequence id).current < (u.sequence id).stepCount) (dt : Float32) :
    (Conductor.takeTurn run dt id s).1 = (Conductor.takeTurn run dt id u).1 ∧
    (∃ l l', (Conductor.takeTurn run dt id s).2.journal = l ++ s.journal ∧
      (Conductor.takeTurn run dt id u).2.journal = l' ++ u.journal ∧
      l.map (Entry.shift id name 0) = l'.map (Entry.shift id name k)) ∧
    (Conductor.takeTurn run dt id s).2.veil id 0 [] =
      (Conductor.takeTurn run dt id u).2.veil id k [] ∧
    ((Conductor.takeTurn run dt id u).1.isOk = true →
      ((Conductor.takeTurn run dt id s).2.sequence id).Abreast M run k
        ((Conductor.takeTurn run dt id u).2.sequence id)) := by
  have hpart := List.getElem?_eq_getElem (l := (u.sequence id).parts) hc
  generalize (u.sequence id).parts[(u.sequence id).current] = part at hpart
  obtain ⟨⟨hstateless, hapart⟩, p₀, hp₀, hagree⟩ := h.parts _ part hpart
  rw [← h.current] at hp₀
  obtain ⟨-, -, -, -, -, -, -, -, -, hrunning, hpaused, -, hticking⟩ := Sequence.mk.inj h.veil
  have hdue : s.Due id := ⟨hpaused.trans h.unpaused, hrunning.trans h.running⟩
  obtain ⟨r, p, t, l, hplay, hresult, hjournal, hback, hrecord⟩ :=
    Conductor.takeTurn_veils hs hdue (hticking.trans h.free) hp₀ hapart 0 dt
  obtain ⟨r', p', t', l', hplay', hresult', hjournal', hback', hrecord'⟩ :=
    Conductor.takeTurn_veils hu ⟨h.unpaused, h.running⟩ h.free hpart hapart k dt
  -- Behind the veil both turns are the same play on the same stage.
  have hlent : (s.lending id).veil id 0 [] = (u.lending id).veil id k [] := by
    rw [Stage.lending_veil, Stage.lending_veil, hv]
  rw [h.veil, hlent] at hplay
  have hlive : part.step.Agree ((u.sequence id).veil k).entered p₀ part.progress := by
    simp only [decide_true, Bool.and_true] at hagree
    exact hagree
  obtain ⟨hr, ht, hpost⟩ := Conductor.playPart_pairs run dt id ((u.sequence id).veil k) part
    hstateless p₀ part.progress ((u.lending id).veil id k []) hlive
  have hplay : Conductor.playPart run dt id ((u.sequence id).veil k) part
      (p₀, (u.lending id).veil id k []) =
        (r, p, t.veil id 0 (l.map (Entry.shift id name 0))) := hplay
  rw [hplay, hplay'] at hr ht hpost
  obtain rfl : r = r' := hr
  have hnotes : l.map (Entry.shift id name 0) = l'.map (Entry.shift id name k) :=
    congrArg Stage.journal ht
  have hveil : t.veil id 0 [] = t'.veil id k [] :=
    congrArg (fun v : Stage => { v with journal := [] }) ht
  refine ⟨hresult.trans hresult'.symm, ?_, ?_, ?_⟩
  · refine ⟨Stage.backNotes id (s.sequence id).current r ++ (l ++ [.turn id .driven]),
      Stage.backNotes id (u.sequence id).current r ++ (l' ++ [.turn id .driven]), ?_, ?_, ?_⟩
    · rw [hjournal]
      simp
    · rw [hjournal']
      simp
    · simp only [List.map_append, Stage.backNotes_shift, hnotes, h.current]
      rfl
  · rw [hback, hback', hveil, h.current]
    rfl
  · intro hok
    rw [hresult'] at hok
    cases r with
    | error e => exact absurd hok (by simp [Except.map, Except.isOk, Except.toBool])
    | ok status =>
      rw [hrecord status rfl, hrecord' status rfl]
      exact h.driven hpart (hpost rfl) status

/-- In whatever worlds the turns are taken, they are reported alike. -/
theorem turns (h : a.Abreast M run k b) (frames : List (Float32 × Stage))
    (hframes : ∀ f ∈ frames, M.world f.2) :
    (Conductor.turns run id frames a).map (Option.map (TurnReport.veil id name 0)) =
      (Conductor.turns run id frames b).map (Option.map (TurnReport.veil id name k)) := by
  induction frames generalizing a b with
  | nil => rfl
  | cons f rest ih =>
    obtain ⟨dt, w⟩ := f
    have hw := hframes _ List.mem_cons_self
    have hend : a.stepCount ≤ a.current ↔ b.stepCount ≤ b.current := by
      rw [h.count, h.current]
      omega
    rw [Conductor.turns, Conductor.turns]
    by_cases hb : b.stepCount ≤ b.current
    · rw [if_pos hb, if_pos (hend.mpr hb)]
      rfl
    · rw [if_neg hb, if_neg (mt hend.mp hb)]
      have hname : a.name = name := by
        have hveil := congrArg Sequence.name h.veil
        exact hveil.trans h.name
      have hs : M.world (w.seating id a) := Milieu.seating hw hname
      have hu : M.world (w.seating id b) := Milieu.seating hw h.name
      have ha : (w.seating id a).sequence id = a := w.sequence_seating (M.placed w hw)
      have hb' : (w.seating id b).sequence id = b := w.sequence_seating (M.placed w hw)
      have hv : (w.seating id a).veil id 0 [] = (w.seating id b).veil id k [] := by
        rw [Stage.seating_veil, Stage.seating_veil, h.veil]
      have habreast : ((w.seating id a).sequence id).Abreast M run k
          ((w.seating id b).sequence id) := by rwa [ha, hb']
      obtain ⟨hresult, ⟨l, l', hl, hl', hnotes⟩, hafter, hnext⟩ :=
        turn hs hu habreast hv (by rw [hb']; omega) dt
      simp only [List.map_cons, Option.map_some, TurnReport.veil, hresult,
        Stage.newEntries_of_append hl, Stage.newEntries_of_append hl', List.map_reverse, hnotes,
        hafter]
      congr 1
      by_cases hok : (Conductor.takeTurn run dt id (w.seating id b)).1.isOk = true
      · rw [if_pos hok, if_pos hok]
        exact ih (hnext hok) fun f hf => hframes f (List.mem_cons_of_mem _ hf)
      · rw [if_neg hok, if_neg hok]
        rfl

end Sequence.Abreast

end

end Sequencer
