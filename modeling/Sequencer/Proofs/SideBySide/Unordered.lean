import Sequencer.Proofs.SideBySide

/-!
# The order of the children

What a child answers may be up to its own progress and the time that it takes alone. Over such
children a parallel step answers the same and asks the same of each of them, in whatever order they
stand: every child is ticked in every frame until it settles, whatever its siblings did before it.
-/

set_option autoImplicit false

namespace Sequencer

/-- Who may carry out commands, and which stages may be found. Nobody minds what is noted. -/
structure Setting where
  runners : Runner → Prop
  world : Stage → Prop
  noted : ∀ {s}, world s → ∀ e, world (s.note e)

def Setting.Decides (E : Setting) {π α : Type} (x : Runner → Cue → Play π α) (p : π) (a : α)
    (q : π) : Prop :=
  ∀ run cue s, E.runners run → E.world s → ∃ t, x run cue (p, s) = (.ok a, q, t) ∧ E.world t

namespace Setting.Decides

variable {E : Setting} {π α β : Type} {x : Runner → Cue → Play π α} {p q r : π} {a : α} {b : β}

theorem pure (E : Setting) (p : π) (a : α) : E.Decides (fun _ _ => Pure.pure a) p a p :=
  fun _ _ s _ hs => ⟨s, rfl, hs⟩

theorem note (E : Setting) (p : π) (e : Cue → Entry) :
    E.Decides (fun _ cue => Play.note (e cue)) p () p :=
  fun _ cue s _ hs => ⟨s.note (e cue), rfl, E.noted hs _⟩

theorem bind {k : Runner → Cue → α → Play π β} (hx : E.Decides x p a q)
    (hk : E.Decides (fun run cue => k run cue a) q b r) :
    E.Decides (fun run cue => x run cue >>= k run cue) p b r := by
  intro run cue s hrun hs
  obtain ⟨t, hx, ht⟩ := hx run cue s hrun hs
  obtain ⟨u, hk, hu⟩ := hk run cue t hrun ht
  refine ⟨u, ?_, hu⟩
  show (x run cue >>= k run cue) (p, s) = _
  rw [Play.bind_apply, hx]
  exact hk

theorem enter {x : Runner → Cue → Play π Unit} (h : E.Decides x p () q) :
    E.Decides (fun run cue => cue.enter (x run cue)) p () q :=
  (note E p _).bind (h.bind (note E q _))

theorem exit {x : Runner → Cue → Play π Unit} (h : E.Decides x p () q) :
    E.Decides (fun run cue => cue.exit (x run cue)) p () q :=
  (note E p _).bind (h.bind (note E q _))

theorem tick {x : Runner → Cue → Play π Status} {status : Status} (h : E.Decides x p status q)
    (dt : Float32) : E.Decides (fun run cue => cue.tick dt (x run cue)) p status q :=
  (note E p _).bind (h.bind ((note E q _).bind (pure E q status)))

end Setting.Decides

/-- What a step does is up to its progress and the time that it takes. -/
structure Step.Autonomous (E : Setting) (s : Step Command) : Prop where
  enter : ∀ p, ∃ q, E.Decides (s.enter · ·) p () q
  tick : ∀ dt p, ∃ status q, E.Decides (s.tick · dt ·) p status q
  exit : ∀ p, ∃ q, E.Decides (s.exit · ·) p () q

inductive Serves : Option Status → Service → Option Status → Prop
  | passed (status : Status) : Serves (some status) .passed (some status)
  | ticked : Serves none (.ticked (.ok .running)) none
  | exited {status : Status} : status.isTerminal = true →
      Serves none (.exited status (.ok ())) (some status)

inductive Served : Option Status → List Service → Option Status → Prop
  | nil (flag : Option Status) : Served flag [] flag
  | cons {flag next last : Option Status} {v : Service} {vs : List Service} :
      Serves flag v next → Served next vs last → Served flag (v :: vs) last

theorem Serves.result {flag next : Option Status} {v : Service} (h : Serves flag v next) :
    ∃ status, v.result = .ok status := by
  cases h with
  | passed => exact ⟨none, rfl⟩
  | ticked => exact ⟨none, rfl⟩
  | @exited status => exact ⟨some status, rfl⟩

namespace Branch

variable {E : Setting}

structure EnteredTo (E : Setting) (p : Part) (c : Branch) : Prop where
  step : c.step = p.step
  enter : ∀ b : Branch, b.toPart = p → ∀ run cue s, E.runners run → E.world s →
    ∃ t, b.enter run cue s = (.entered (.ok ()), c, t) ∧ E.world t

theorem enter_decided (p : Part) (h : p.step.Autonomous E) : ∃ c, EnteredTo E p c := by
  obtain ⟨q, hq⟩ := h.enter p.progress
  refine ⟨⟨⟨p.step, q⟩, none⟩, rfl, ?_⟩
  rintro b rfl run cue s hrun hs
  obtain ⟨t, henter, ht⟩ := hq.enter run cue s hrun hs
  have henter : cue.enter (b.step.enter run cue) (b.progress, s) = _ := henter
  exact ⟨t, by rw [Branch.enter, henter], ht⟩

structure TickedTo (E : Setting) (dt : Float32) (b : Branch) (v : Service) (c : Branch) : Prop where
  serves : Serves b.settled v c.settled
  step : c.step = b.step
  tick : ∀ run cue s, E.runners run → E.world s →
    ∃ t, b.tick run dt cue s = (v, c, t) ∧ E.world t

theorem tick_decided (dt : Float32) (b : Branch) (h : b.step.Autonomous E) :
    ∃ v c, b.TickedTo E dt v c := by
  obtain ⟨⟨step, p⟩, flag⟩ := b
  cases flag with
  | some status => exact ⟨.passed, _, .passed status, rfl, fun _ _ s _ hs => ⟨s, rfl, hs⟩⟩
  | none =>
  obtain ⟨status, q, htick⟩ := h.tick dt p
  have htick := htick.tick dt
  by_cases hrunning : status.isRunning = true
  · obtain rfl : status = .running := by
      cases status with
      | running => rfl
      | succeeded => cases hrunning
      | failed => cases hrunning
    refine ⟨.ticked (.ok .running), ⟨⟨step, q⟩, none⟩, .ticked, rfl, fun run cue s hrun hs => ?_⟩
    obtain ⟨t, htick, ht⟩ := htick run cue s hrun hs
    exact ⟨t, by simp only [Branch.tick, htick]; rfl, ht⟩
  · obtain ⟨r, hexit⟩ := h.exit q
    have hexit := hexit.exit
    have hterminal : status.isTerminal = true := by simpa [Status.isTerminal] using hrunning
    refine ⟨.exited status (.ok ()), ⟨⟨step, r⟩, some status⟩, .exited hterminal, rfl,
      fun run cue s hrun hs => ?_⟩
    obtain ⟨t, htick, ht⟩ := htick run cue s hrun hs
    obtain ⟨u, hexit, hu⟩ := hexit run cue t hrun ht
    exact ⟨u, by simp only [Branch.tick, htick, hexit, if_neg hrunning]; rfl, hu⟩

end Branch

/-- The rows of two lists of branches, the same but for their order: what stands at place `i` of the
one stands at place `σ i` of the other. -/
def Rearranged {α : Type} (σ : Equiv.Perm Nat) (l l' : List α) : Prop := ∀ i, l'[σ i]? = l[i]?

namespace Rearranged

variable {α β : Type} {σ : Equiv.Perm Nat} {l l' : List α}

theorem mem_iff (h : Rearranged σ l l') {a : α} : a ∈ l' ↔ a ∈ l := by
  simp only [List.mem_iff_getElem?, ← h _]
  exact ⟨fun ⟨i, hi⟩ => ⟨σ.symm i, by rw [σ.apply_symm_apply]; exact hi⟩, fun ⟨i, hi⟩ => ⟨σ i, hi⟩⟩

theorem map (h : Rearranged σ l l') (f : α → β) : Rearranged σ (l.map f) (l'.map f) := fun i => by
  rw [List.getElem?_map, List.getElem?_map, h i]

end Rearranged

/-- Which status a parallel step settles with does not depend on the order of what settled, nor of
what did not. -/
theorem Quorum.answer_rearranged (mode : Quorum) {σ : Equiv.Perm Nat}
    {statuses statuses' : List (Option Status)} {row row' : List Branch}
    (h : Rearranged σ statuses statuses') (hrow : Rearranged σ row row') :
    mode.answer statuses' row' = mode.answer statuses row := by
  have hany (p : Status → Bool) : statuses'.reduceOption.any p = statuses.reduceOption.any p := by
    rw [Bool.eq_iff_iff, List.any_eq_true, List.any_eq_true]
    simp only [List.reduceOption_mem_iff, h.mem_iff]
  have hpending : row'.countP (·.settled.isNone) = 0 ↔ row.countP (·.settled.isNone) = 0 := by
    simp only [List.countP_eq_zero, hrow.mem_iff]
  cases mode <;> simp only [answer, verdict, hany, hpending]

/-- A round halts nowhere if no service does. -/
theorem results_ok {vs : List Service} (h : ∀ v ∈ vs, ∃ status, v.result = .ok status) :
    ∃ statuses, results vs = .ok statuses ∧ vs.map (·.result) = statuses.map .ok := by
  have hrange : vs.map (·.result) ∈ Set.range (List.map Except.ok) := by
    rw [Set.range_list_map]
    exact List.forall_mem_map.mpr fun v hv => (h v hv).imp fun _ => Eq.symm
  obtain ⟨statuses, hstatuses⟩ := hrange
  exact ⟨statuses, results_eq hstatuses.symm, hstatuses.symm⟩

theorem Rearranged.results {σ : Equiv.Perm Nat} {vs vs' : List Service}
    (h : Rearranged σ vs vs') {statuses statuses' : List (Option Status)}
    (hvs : vs.map (·.result) = statuses.map .ok) (hvs' : vs'.map (·.result) = statuses'.map .ok) :
    Rearranged σ statuses statuses' := by
  intro i
  have hi := h.map (·.result) i
  rw [hvs, hvs', List.getElem?_map, List.getElem?_map] at hi
  exact Option.map_injective (fun _ _ => Except.ok.inj) hi

section

variable {E : Setting}

/-- A round over branches whose calls are decided comes to the same wherever it takes place. -/
theorem round_decided {call : Cue → Branch → Stage → Service × Branch × Stage}
    (f : Branch → Service × Branch) {row : List Branch}
    (hcall : ∀ b ∈ row, ∀ cue s, E.world s → ∃ t, call cue b s = ((f b).1, (f b).2, t) ∧ E.world t)
    (hok : ∀ b ∈ row, ∃ status, (f b).1.result = .ok status) (cue : Cue) (index : Nat) {s : Stage}
    (hs : E.world s) :
    ∃ t, round call cue index row s =
      (row.map (fun b => (f b).1), row.map (fun b => (f b).2), t) ∧ E.world t := by
  have hfold := round_fold (fun _ : Unit => E.world) (fun d _ => d)
    (fun b hb cue _ s hs => hcall b hb cue s hs) hok cue index (d := ()) hs
  rw [List.map_id'] at hfold
  exact hfold

/-- For every length of a frame there is what its round does with each of the branches. -/
theorem ticks_decided (E : Setting) (dt : Float32) : ∃ f : Branch → Service × Branch,
    ∀ b : Branch, b.step.Autonomous E → b.TickedTo E dt (f b).1 (f b).2 := by
  have hnext (b : Branch) :
      ∃ x : Service × Branch, b.step.Autonomous E → b.TickedTo E dt x.1 x.2 := by
    by_cases h : b.step.Autonomous E
    · obtain ⟨v, c, hb⟩ := b.tick_decided dt h
      exact ⟨(v, c), fun _ => hb⟩
    · exact ⟨(.passed, b), fun hb => absurd hb h⟩
  exact Classical.skolem.mp hnext

def Setting.Allows (E : Setting) (o : Occasion) : Prop := E.runners o.run ∧ E.world o.world

/-- What a frame's round over autonomous branches comes to, given what comes of each of them. -/
theorem round_tick_decided {f : Branch → Service × Branch} {row next : List Branch} {o : Occasion}
    {dt : Float32} {cue : Cue} {vs : List Service} {t : Stage}
    (hf : ∀ b : Branch, b.step.Autonomous E → b.TickedTo E dt (f b).1 (f b).2) (hdt : o.dt = dt)
    (hrow : ∀ b ∈ row, b.step.Autonomous E) (ho : E.Allows o)
    (hround : round (Branch.tick o.run o.dt) cue 0 row o.world = (vs, next, t)) :
    vs = row.map (fun b => (f b).1) ∧ next = row.map (fun b => (f b).2) ∧
    (∃ statuses, results vs = .ok statuses ∧ vs.map (·.result) = statuses.map .ok) ∧
    (∀ b ∈ next, b.step.Autonomous E) ∧ E.world t := by
  have hok : ∀ b ∈ row, ∃ status, (f b).1.result = .ok status :=
    fun b hb => (hf b (hrow b hb)).serves.result
  obtain ⟨u, hround', hu⟩ := round_decided f
    (fun b hb cue s hs => (hf b (hrow b hb)).tick o.run cue s ho.1 hs) hok cue 0 ho.2
  rw [← hdt, hround] at hround'
  cases hround'
  refine ⟨rfl, rfl, results_ok (List.forall_mem_map.mpr hok), List.forall_mem_map.mpr ?_, hu⟩
  intro b hb
  rw [(hf b (hrow b hb)).step]
  exact hrow b hb

/-- Over autonomous branches every frame answers, and every branch is served until it settles. -/
theorem Rounds.served {mode : Quorum} {cue : Cue} {fs : List Frame} {rounds : List (List Service)}
    {row last : List Branch} (h : Rounds mode cue fs rounds row last)
    (hfs : ∀ f ∈ fs, E.Allows f.toOccasion) (hrow : ∀ b ∈ row, b.step.Autonomous E) :
    (∃ statuses : List Status, fs.map (·.answer) = statuses.map .ok) ∧
    (∀ f ∈ fs, E.world f.after) ∧
    ∀ (i : Nat) (b : Branch), row[i]? = some b → ∃ vs c, rounds.map (·[i]?) = vs.map some ∧
      Served b.settled vs c.settled ∧ last[i]? = some c := by
  induction h with
  | nil row =>
    exact ⟨⟨[], rfl⟩, List.forall_mem_nil _, fun i b hb => ⟨[], b, rfl, .nil _, hb⟩⟩
  | @cons g gs ws later row next last t hround hanswer hafter _ ih =>
    obtain ⟨hg, hgs⟩ := List.forall_mem_cons.mp hfs
    obtain ⟨f, hf⟩ := ticks_decided E g.dt
    obtain ⟨rfl, rfl, ⟨statuses, hresults, -⟩, hnext, ht⟩ :=
      round_tick_decided hf rfl hrow hg hround
    obtain ⟨⟨answers, hanswers⟩, hworlds, hserved⟩ := ih hgs hnext
    refine ⟨⟨mode.answer statuses (row.map fun b => (f b).2) :: answers, ?_⟩,
      List.forall_mem_cons.mpr ⟨?_, hworlds⟩, fun i b hb => ?_⟩
    · rw [List.map_cons, List.map_cons, hanswer, hresults, hanswers]
      rfl
    · exact Stage.noticed hafter ht fun _ => E.noted ht _
    · have hb' : (row.map fun b => (f b).2)[i]? = some (f b).2 := by rw [List.getElem?_map, hb]; rfl
      obtain ⟨vs, c, hvs, hc, hlast⟩ := hserved i _ hb'
      have hserves := (hf b (hrow b (List.mem_of_getElem? hb))).serves
      refine ⟨(f b).1 :: vs, c, ?_, .cons hserves hc, hlast⟩
      rw [List.map_cons, List.map_cons, hvs, List.getElem?_map, hb]
      rfl

/-- Frame by frame a parallel step over autonomous branches answers the same and serves each branch
the same, in whatever order they stand. -/
theorem Rounds.rearranged {mode : Quorum} {cue cue' : Cue} {fs fs' : List Frame}
    {rounds rounds' : List (List Service)} {row row' last last' : List Branch}
    {σ : Equiv.Perm Nat}
    (h : Rounds mode cue fs rounds row last) (h' : Rounds mode cue' fs' rounds' row' last')
    (hfs : ∀ f ∈ fs, E.Allows f.toOccasion) (hfs' : ∀ f ∈ fs', E.Allows f.toOccasion)
    (hdt : fs'.map (·.dt) = fs.map (·.dt)) (hE : ∀ b ∈ row, b.step.Autonomous E)
    (hrow : Rearranged σ row row') :
    fs'.map (·.answer) = fs.map (·.answer) ∧
    (∀ i, rounds'.map (·[σ i]?) = rounds.map (·[i]?)) ∧ Rearranged σ last last' := by
  induction h generalizing fs' rounds' row' with
  | nil row =>
    cases List.map_eq_nil_iff.mp hdt
    cases h'
    exact ⟨rfl, fun _ => rfl, hrow⟩
  | @cons g gs ws later row next last t hround hanswer hafter _ ih =>
    cases h' with
    | nil => cases hdt
    | @cons g' gs' ws' later' _ next' _ t' hround' hanswer' hafter' hlater' =>
    obtain ⟨hg, hgs⟩ := List.forall_mem_cons.mp hfs
    obtain ⟨hg', hgs'⟩ := List.forall_mem_cons.mp hfs'
    obtain ⟨hsame, hdts⟩ := List.cons.inj hdt
    have hE' : ∀ b ∈ row', b.step.Autonomous E := fun b hb => hE b (hrow.mem_iff.mp hb)
    obtain ⟨f, hf⟩ := ticks_decided E g.dt
    obtain ⟨rfl, rfl, ⟨statuses, hresults, hmap⟩, hnext, -⟩ :=
      round_tick_decided hf rfl hE hg hround
    obtain ⟨rfl, rfl, ⟨statuses', hresults', hmap'⟩, -, -⟩ :=
      round_tick_decided hf hsame hE' hg' hround'
    have hservices := hrow.map (fun b => (f b).1)
    have hrow := hrow.map (fun b => (f b).2)
    obtain ⟨hanswers, hcalls, hlast⟩ := ih hlater' hgs hgs' hdts hnext hrow
    refine ⟨?_, fun i => ?_, hlast⟩
    · rw [List.map_cons, List.map_cons, hanswers, hanswer, hanswer', hresults, hresults']
      exact congrArg (Except.ok · :: _)
        (mode.answer_rearranged (hservices.results hmap hmap') hrow)
    · rw [List.map_cons, List.map_cons, hcalls i]
      exact congrArg (· :: _) (hservices i)

theorem enters_decided (E : Setting) : ∃ f : Part → Branch,
    ∀ p : Part, p.step.Autonomous E → Branch.EnteredTo E p (f p) := by
  have hnext (p : Part) : ∃ c : Branch, p.step.Autonomous E → Branch.EnteredTo E p c := by
    by_cases h : p.step.Autonomous E
    · obtain ⟨c, hc⟩ := Branch.enter_decided p h
      exact ⟨c, fun _ => hc⟩
    · exact ⟨⟨p, none⟩, fun hp => absurd hp h⟩
  exact Classical.skolem.mp hnext

/-- Autonomous children are all entered, and what entering leaves of them is up to each of them. -/
theorem enterLanes_decided {f : Part → Branch} {l : List (Step Command)} {run : Runner}
    (hf : ∀ p : Part, p.step.Autonomous E → Branch.EnteredTo E p (f p))
    (hrun : E.runners run) (hl : ∀ x ∈ l, x.Autonomous E) (a : Lanes l) (cue : Cue) {s : Stage}
    (hs : E.world s) :
    let x := enterLanes run l cue 0 (a, s)
    round (Branch.enter run) cue 0 (branches l a) s =
        (List.replicate l.length (.entered (.ok ())), branches l x.2.1, x.2.2) ∧
    x.1 = .ok () ∧ branches l x.2.1 = ((branches l a).map (·.toPart)).map f := by
  intro x
  have hsteps : ∀ b ∈ branches l a, b.step.Autonomous E := fun b hb => hl _ <| by
    rw [← branches_steps l a]
    exact List.mem_map_of_mem hb
  obtain ⟨t, hround', ht⟩ := round_decided (fun b => (.entered (.ok ()), f b.toPart))
    (fun b hb cue s hs => (hf b.toPart (hsteps b hb)).enter b rfl run cue s hrun hs)
    (fun b _ => ⟨none, rfl⟩) cue 0 hs
  obtain ⟨vs, hround, hx⟩ := enterLanes_round run cue l 0 a s
  have hx : x.1 = _ := hx
  have hlength := congrArg List.length (branches_steps l a)
  rw [List.length_map] at hlength
  rw [List.map_const', hlength] at hround'
  rw [hround', Prod.mk.injEq, Prod.mk.injEq] at hround
  obtain ⟨rfl, hrow, rfl⟩ := hround
  refine ⟨?_, ?_, ?_⟩
  · rw [hround', hrow]
  · have hresults : results (List.replicate l.length (.entered (.ok ()))) =
        .ok (List.replicate l.length none) :=
      results_eq (by rw [List.map_replicate, List.map_replicate]; rfl)
    rw [hx, hresults]
    rfl
  · rw [List.map_map]
    exact hrow.symm

structure Quorum.UnorderedFrames (E : Setting) (mode : Quorum) (σ : Equiv.Perm Nat) (cue cue' : Cue)
    (fs fs' : List Frame) (row row' last last' : List Branch) : Prop where
  answers : ∃ statuses : List Status, fs.map (·.answer) = statuses.map .ok ∧
    fs'.map (·.answer) = statuses.map .ok
  /-- Corresponding children are served the same in each frame, each as long as it has not
  settled. -/
  rounds : ∃ rounds rounds', Rounds mode cue fs rounds row last ∧
    Rounds mode cue' fs' rounds' row' last' ∧
    (∀ i, rounds'.map (·[σ i]?) = rounds.map (·[i]?)) ∧
    ∀ (i : Nat) (b : Branch), row[i]? = some b → ∃ vs c, rounds.map (·[i]?) = vs.map some ∧
      Served none vs c.settled ∧ last[i]? = some c
  world : ∀ f ∈ fs, E.world f.after

theorem Play.occasions_dts {π : Type} (x : Runner → Float32 → Play π Status) (os : List Occasion)
    (p : π) : (Play.frames x os p).1.map (·.dt) = os.map (·.dt) := by
  rw [← congrArg (List.map (·.dt)) (Play.occasions_frames x os p), List.map_map]
  rfl

theorem Play.occasions_mem {π : Type} {x : Runner → Float32 → Play π Status} {os : List Occasion}
    {p : π} {f : Frame} (h : f ∈ (Play.frames x os p).1) : f.toOccasion ∈ os := by
  rw [← Play.occasions_frames x os p]
  exact List.mem_map_of_mem h

theorem Quorum.frames_unordered (mode : Quorum) {σ : Equiv.Perm Nat} {l l' : List (Step Command)}
    {a : Lanes l} {a' : Lanes l'} (hE : ∀ b ∈ branches l a, b.step.Autonomous E)
    (hrow : Rearranged σ (branches l a) (branches l' a'))
    (hunsettled : ∀ b ∈ branches l a, b.settled = none) (cue cue' : Cue) {os os' : List Occasion}
    (hos : ∀ o ∈ os, E.Allows o) (hos' : ∀ o ∈ os', E.Allows o)
    (hdt : os'.map (·.dt) = os.map (·.dt)) :
    let x := Play.frames (mode.frame l cue) os a
    let x' := Play.frames (mode.frame l' cue') os' a'
    mode.UnorderedFrames E σ cue cue' x.1 x'.1 (branches l a) (branches l' a') (branches l x.2)
      (branches l' x'.2) := by
  intro x x'
  obtain ⟨rounds, hrounds⟩ := Rounds.frames mode l cue os a
  obtain ⟨rounds', hrounds'⟩ := Rounds.frames mode l' cue' os' a'
  have hfs : ∀ f ∈ x.1, E.Allows f.toOccasion := fun f hf => hos _ (Play.occasions_mem hf)
  have hfs' : ∀ f ∈ x'.1, E.Allows f.toOccasion := fun f hf => hos' _ (Play.occasions_mem hf)
  have hdts : x'.1.map (·.dt) = x.1.map (·.dt) := by
    rw [Play.occasions_dts, Play.occasions_dts, hdt]
  obtain ⟨⟨statuses, hstatuses⟩, hworlds, hserved⟩ := hrounds.served hfs hE
  obtain ⟨hanswers, hcalls, -⟩ := hrounds.rearranged hrounds' hfs hfs' hdts hE hrow
  refine ⟨⟨statuses, hstatuses, hanswers.trans hstatuses⟩,
    ⟨rounds, rounds', hrounds, hrounds', hcalls, fun i b hb => ?_⟩, hworlds⟩
  obtain ⟨vs, c, hvs, hc, hlast⟩ := hserved i b hb
  rw [hunsettled b (List.mem_of_getElem? hb)] at hc
  exact ⟨vs, c, hvs, hc, hlast⟩

namespace Step

variable (E : Setting)

theorem wait_autonomous (seconds : Float32) : (Step.wait seconds).Autonomous E where
  enter _ := ⟨(0 : Float32), fun _ _ s _ hs => ⟨s, rfl, hs⟩⟩
  tick dt := fun (elapsed : Float32) =>
    ⟨if elapsed + dt ≥ seconds then .succeeded else .running, (elapsed + dt : Float32),
      fun _ _ s _ hs => ⟨s, rfl, hs⟩⟩
  exit elapsed := ⟨elapsed, fun _ _ s _ hs => ⟨s, rfl, hs⟩⟩

theorem probe_autonomous (id : String) (script : List Status) :
    (Step.probe id script).Autonomous E where
  enter used := ⟨used, fun _ _ _ _ hs => ⟨_, rfl, E.noted hs _⟩⟩
  tick _ := fun (used : Nat) =>
    ⟨_, (used + 1 : Nat), fun _ _ _ _ hs => ⟨_, rfl, E.noted hs _⟩⟩
  exit used := ⟨used, fun _ _ _ _ hs => ⟨_, rfl, E.noted hs _⟩⟩

end Step

/-- Over children that do not depend on each other the order of a parallel step does not matter,
and no child is passed over because a sibling has decided. -/
theorem parallel_unordered (E : Setting) (mode : Quorum) (σ : Equiv.Perm Nat)
    (l l' : List (Step Command)) (a : Lanes l) (a' : Lanes l') (cue cue' : Cue) (run run' : Runner)
    (s s' : Stage) (os os' : List Occasion) (hl : ∀ x ∈ l, x.Autonomous E)
    (horder : Rearranged σ ((branches l a).map (·.toPart)) ((branches l' a').map (·.toPart)))
    (hrun : E.runners run) (hrun' : E.runners run') (hs : E.world s) (hs' : E.world s')
    (hos : ∀ o ∈ os, E.Allows o) (hos' : ∀ o ∈ os', E.Allows o)
    (hdt : os'.map (·.dt) = os.map (·.dt)) :
    let r := (Step.parallel mode l).enter run cue (a, s)
    let r' := (Step.parallel mode l').enter run' cue' (a', s')
    let x := Play.frames (mode.frame l cue) os r.2.1
    let x' := Play.frames (mode.frame l' cue') os' r'.2.1
    r.1 = .ok () ∧ r'.1 = .ok () ∧
    round (Branch.enter run) cue 0 (branches l a) s =
      (List.replicate l.length (.entered (.ok ())), branches l r.2.1, r.2.2) ∧
    round (Branch.enter run') cue' 0 (branches l' a') s' =
      (List.replicate l'.length (.entered (.ok ())), branches l' r'.2.1, r'.2.2) ∧
    mode.UnorderedFrames E σ cue cue' x.1 x'.1 (branches l r.2.1) (branches l' r'.2.1)
      (branches l x.2) (branches l' x'.2) ∧
    ∀ w, (Step.parallel mode l).exit run cue (x.2, w) = (.ok (), x.2, w) := by
  intro r r' x x'
  obtain ⟨f, hf⟩ := enters_decided E
  have hl' : ∀ y ∈ l', y.Autonomous E := by
    intro y hy
    have hsteps := horder.map (·.step)
    rw [List.map_map, List.map_map] at hsteps
    have hsteps : Rearranged σ ((branches l a).map (·.step)) ((branches l' a').map (·.step)) :=
      hsteps
    rw [branches_steps, branches_steps] at hsteps
    exact hl y (hsteps.mem_iff.mp hy)
  obtain ⟨hround, hr, hrow⟩ := enterLanes_decided hf hrun hl a cue hs
  obtain ⟨hround', hr', hrow'⟩ := enterLanes_decided hf hrun' hl' a' cue' hs'
  refine ⟨hr, hr', hround, hround', ?_, fun _ => rfl⟩
  have hE : ∀ b ∈ branches l r.2.1, b.step.Autonomous E := fun b hb => hl _ <| by
    rw [← branches_steps l r.2.1]
    exact List.mem_map_of_mem hb
  have hrows := horder.map f
  rw [← hrow, ← hrow'] at hrows
  exact mode.frames_unordered hE hrows (enterLanes_unsettled run cue l 0 a s hr) cue cue' hos hos'
    hdt

end

/-- The first child fails in the second frame and decides. The other two are ticked in it all the
same, and one of them settles and is exited; they are visited first if the order is reversed. -/
theorem parallel_unordered_reversed :
    let E : Setting := ⟨fun _ => True, fun _ => True, fun _ _ => trivial⟩
    let p : Step Command := .probe "p" [.running, .failed]
    let q : Step Command := .probe "q" [.running]
    let l : List (Step Command) := [p, q, .wait 2]
    let l' : List (Step Command) := [.wait 2, q, p]
    let a : Lanes l := (⟨some .succeeded, (0 : Nat)⟩, ⟨none, (0 : Nat)⟩, ⟨none, (7 : Float32)⟩, ())
    let a' : Lanes l' := (⟨none, (7 : Float32)⟩, ⟨none, (0 : Nat)⟩, ⟨none, (0 : Nat)⟩, ())
    let cue : Cue := ⟨"a", .held "h"⟩
    let o : Occasion := ⟨perform 1, 1, {}⟩
    let r := (Step.parallel .all l).enter (perform 1) cue (a, {})
    let r' := (Step.parallel .all l').enter (perform 1) cue (a', {})
    let x := Play.frames (Quorum.all.frame l cue) [o, o] r.2.1
    let x' := Play.frames (Quorum.all.frame l' cue) [o, o] r'.2.1
    x.1.map (·.answer) = [.ok .running, .ok .failed] ∧
    (branches l x.2).map (·.settled) = [some .failed, none, some .succeeded] ∧
    Quorum.all.UnorderedFrames E (Equiv.swap 0 2) cue cue x.1 x'.1 (branches l r.2.1)
      (branches l' r'.2.1) (branches l x.2) (branches l' x'.2) := by
  intro E p q l l' a a' cue o r r' x x'
  refine ⟨by decide +kernel, by decide +kernel, ?_⟩
  have hl : ∀ x ∈ l, x.Autonomous E := List.forall_mem_cons.mpr ⟨Step.probe_autonomous E _ _,
    List.forall_mem_cons.mpr ⟨Step.probe_autonomous E _ _, List.forall_mem_singleton.mpr
      (Step.wait_autonomous E 2)⟩⟩
  have horder : Rearranged (Equiv.swap 0 2) ((branches l a).map (·.toPart))
      ((branches l' a').map (·.toPart)) := by
    intro i
    rcases i with _ | _ | _ | i
    · rfl
    · rfl
    · rfl
    · rw [Equiv.swap_apply_of_ne_of_ne (by omega) (by omega)]
      rfl
  have hos : ∀ w ∈ [o, o], E.Allows w := fun _ _ => ⟨trivial, trivial⟩
  obtain ⟨-, -, -, -, hframes, -⟩ := parallel_unordered E .all (Equiv.swap 0 2) l l' a a' cue cue
    (perform 1) (perform 1) {} {} [o, o] [o, o] hl horder trivial trivial trivial trivial hos hos
    rfl
  exact hframes

end Sequencer
