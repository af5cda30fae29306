import Sequencer.Proofs.Course.Incidents
import Sequencer.Proofs.Course.Session

/-!
# What a drive notes

The journal only grows. A step that is driven is called first, to be entered if it was not yet
and to be ticked if it was, and what it answers is noted before the drive goes on.
-/

set_option autoImplicit false

namespace Sequencer

open Site (Below Nowhere)

def Grows (s t : Stage) : Prop := ∃ l, t.journal = l ++ s.journal

theorem Stage.newEntries_of_append {s t : Stage} {l : List Entry}
    (h : t.journal = l ++ s.journal) : s.newEntries t = l.reverse := by
  simp [newEntries, h]

namespace Grows

variable {s t u : Stage}

theorem refl (s : Stage) : Grows s s := ⟨[], rfl⟩

theorem trans (h : Grows s t) (h' : Grows t u) : Grows s u := by
  obtain ⟨l, hl⟩ := h
  obtain ⟨l', hl'⟩ := h'
  exact ⟨l' ++ l, by rw [hl', hl, List.append_assoc]⟩

theorem note (e : Entry) (h : Grows s t) : Grows s (t.note e) := h.trans ⟨[e], rfl⟩

theorem of_eq (h : t.journal = s.journal) : Grows s t := ⟨[], h⟩

theorem starting (s : Stage) (id : Nat) (n : Notice) : Grows s (s.starting id n) := by
  have hn : Grows s ((((s.modify id Sequence.begun).note (.notice n)).note (.began id)).note
      (.moved id .started 0)) := ⟨[_, _, _], rfl⟩
  exact .note _ (hn.trans (.of_eq (Stage.journal_enlist _ id)))

theorem restoring (s : Stage) (id index : Nat) : Grows s (s.restoring id index) := by
  have hn : Grows s (((s.modify id (Sequence.resumed index)).note
      (.restored id (s.sequence id).running)).note (.moved id (.restored index)
        ((s.modify id (Sequence.resumed index)).sequence id).current)) := ⟨[_, _], rfl⟩
  exact hn.trans (.of_eq (Stage.journal_enlist _ id))

end Grows

theorem Incident.grows {own : Site → Prop} {s t : Stage} (h : Incident own s t) : Grows s t := by
  cases h with
  | aside h =>
    obtain ⟨l, hl, -⟩ := h.journal
    exact ⟨l, hl⟩
  | called c _ => exact .note _ (.refl s)
  | returned r _ => exact .note _ (.refl s)
  | held h _ => exact .of_eq rfl
  | registered resolve o _ => exact .of_eq rfl
  | registeredHeld _ _ => exact .of_eq rfl
  | checked id => exact .of_eq rfl
  | paused id f => exact .of_eq rfl
  | started n _ _ => exact .starting s _ n
  | reset _ => exact ⟨[_], rfl⟩
  | restored index _ => exact .restoring s _ index
  | ended n _ _ => exact ⟨[_, _], rfl⟩
  | dropped id => exact ⟨[_], rfl⟩
  | unregistered name => exact .of_eq rfl
  | delisted id => exact .of_eq rfl
  | swept id => exact .of_eq (s.journal_sweep id)
  | turned _ => exact .note _ (.refl s)

theorem Course.grows {own : Site → Prop} {calm : Bool} {s t : Stage} (h : Course own calm s t) :
    Grows s t := by
  induction h with
  | single h => exact h.grows
  | halt _ ih => exact ih
  | trans _ _ ih ih' => exact ih.trans ih'
  | widen _ _ ih => exact ih
  | @driven own run dt s t id part r p _ _ ih =>
    have hlent : Grows s (s.lending id) := ⟨[.turn id .driven], rfl⟩
    exact (hlent.trans ih).trans (t.journal_afterPlay id (s.sequence id) ⟨part.step, p⟩ r)

def Play.Grows {π α : Type} (play : Play π α) : Prop := ∀ x, Sequencer.Grows x.2 (play x).2.2

theorem Play.Follows.grows {π α : Type} {own : Site → Prop} {play : Play π α}
    (h : play.Follows own) : play.Grows := fun x => (h x).course.grows

theorem Play.note_apply {π : Type} (e : Entry) (x : π × Stage) :
    Play.note e x = (.ok (), x.1, x.2.note e) := rfl

namespace Site

/-- What the journal gains by a call of the step at a site, newest first: what is done in the call
stands on top of it, and the return, if the call does not halt, on top of that. -/
inductive Called (σ : Site) (call : Call) : Except Halt (Option Status) → List Entry → Prop
  | returns (r : Option Status) (body : List Entry) :
      Called σ call (.ok r) (.returned σ r :: (body ++ [.called σ call]))
  | halts (h : Halt) (body : List Entry) : Called σ call (.error h) (body ++ [.called σ call])

inductive Opened (σ : Site) : Bool → List Entry → Prop
  | before : Opened σ false []
  | now {l n : List Entry} : σ.Called .enter (.ok none) l → (∀ e ∈ n, ∃ m, e = .notice m) →
      Opened σ true (l ++ n)

inductive Ticked (σ : Site) (dt : Float32) (fresh : Bool) (status : Status) : List Entry → Prop
  | intro {l o : List Entry} : σ.Called (.tick dt) (.ok (some status)) l → σ.Opened fresh o →
      Ticked σ dt fresh status (l ++ o)

/-- What the journal gains in a frame of the step at a site. A step that settles is exited; a step
that halts does so in one of its calls. -/
inductive Driven (σ : Site) (dt : Float32) (fresh : Bool) : Except Halt Status → List Entry → Prop
  | goesOn {l : List Entry} : σ.Ticked dt fresh .running l → Driven σ dt fresh (.ok .running) l
  | settles {status : Status} {l x n : List Entry} : status.isTerminal = true →
      σ.Ticked dt fresh status l → σ.Called .exit (.ok none) x → (∀ e ∈ n, ∃ m, e = .notice m) →
      Driven σ dt fresh (.ok status) (n ++ (x ++ l))
  | haltsEntering {h : Halt} {l n : List Entry} : fresh = true → σ.Called .enter (.error h) l →
      (∀ e ∈ n, ∃ m, e = .notice m) → Driven σ dt fresh (.error h) (l ++ n)
  | haltsTicking {h : Halt} {l o : List Entry} : σ.Called (.tick dt) (.error h) l →
      σ.Opened fresh o → Driven σ dt fresh (.error h) (l ++ o)
  | haltsExiting {h : Halt} {status : Status} {l x : List Entry} : status.isTerminal = true →
      σ.Ticked dt fresh status l → σ.Called .exit (.error h) x →
      Driven σ dt fresh (.error h) (x ++ l)

variable {σ : Site} {dt : Float32} {fresh : Bool} {status : Status} {r : Except Halt Status}
  {l : List Entry}

theorem Called.first {call : Call} {ret : Except Halt (Option Status)} (h : σ.Called call ret l) :
    ∃ l', l = l' ++ [.called σ call] := by
  cases h with
  | returns r body => exact ⟨.returned σ r :: body, rfl⟩
  | halts h body => exact ⟨body, rfl⟩

theorem Called.calls {ret : Except Halt (Option Status)} {o : List Entry}
    (h : σ.Called (.tick dt) ret l) (ho : σ.Opened fresh o) : ∃ l' call n,
    l ++ o = l' ++ .called σ call :: n ∧ (∀ e ∈ n, ∃ m, e = .notice m) ∧
      (call = .enter ↔ fresh = true) := by
  obtain ⟨l', rfl⟩ := h.first
  cases ho with
  | before => exact ⟨l', .tick dt, [], by simp, by simp, by simp⟩
  | @now o n henter hn =>
    obtain ⟨o', rfl⟩ := henter.first
    exact ⟨l' ++ .called σ (.tick dt) :: o', .enter, n, by simp, hn, by simp⟩

theorem Ticked.calls (h : σ.Ticked dt fresh status l) : ∃ l' call n,
    l = l' ++ .called σ call :: n ∧ (∀ e ∈ n, ∃ m, e = .notice m) ∧
      (call = .enter ↔ fresh = true) := by
  obtain ⟨htick, ho⟩ := h
  exact htick.calls ho

/-- The first call of a frame enters the step, if it was not entered yet. -/
theorem Driven.calls (h : σ.Driven dt fresh r l) : ∃ l' call n,
    l = l' ++ .called σ call :: n ∧ (∀ e ∈ n, ∃ m, e = .notice m) ∧
      (call = .enter ↔ fresh = true) := by
  cases h with
  | goesOn h => exact h.calls
  | @settles status l x n _ h _ _ =>
    obtain ⟨l', call, n', rfl, hn, hcall⟩ := h.calls
    exact ⟨n ++ (x ++ l'), call, n', by simp, hn, hcall⟩
  | @haltsEntering e l n hfresh henter hn =>
    obtain ⟨l', rfl⟩ := henter.first
    exact ⟨l', .enter, n, by simp, hn, by simp [hfresh]⟩
  | haltsTicking htick ho => exact htick.calls ho
  | @haltsExiting e status l x _ h _ =>
    obtain ⟨l', call, n', rfl, hn, hcall⟩ := h.calls
    exact ⟨x ++ l', call, n', by simp, hn, hcall⟩

theorem Called.first_tick {ret : Except Halt (Option Status)} {o : List Entry}
    (h : σ.Called (.tick dt) ret l) (ho : σ.Opened false o) :
    ∃ l', l ++ o = l' ++ [.called σ (.tick dt)] := by
  obtain ⟨l', rfl⟩ := h.first
  cases ho
  exact ⟨l', by simp⟩

theorem Ticked.first_tick (h : σ.Ticked dt false status l) :
    ∃ l', l = l' ++ [.called σ (.tick dt)] := by
  obtain ⟨htick, ho⟩ := h
  exact htick.first_tick ho

theorem Ticked.ends (h : σ.Ticked dt fresh status l) : ∃ l' l'',
    l = .returned σ (some status) :: (l' ++ .called σ (.tick dt) :: l'') := by
  obtain @⟨l, o, htick, hopened⟩ := h
  cases htick with
  | returns r body => exact ⟨body, o, by simp⟩

/-- A frame of a step that was entered before begins with its tick. -/
theorem Driven.first_tick (h : σ.Driven dt false r l) : ∃ l', l = l' ++ [.called σ (.tick dt)] := by
  cases h with
  | goesOn h => exact h.first_tick
  | @settles status l x n _ h _ _ =>
    obtain ⟨l', rfl⟩ := h.first_tick
    exact ⟨n ++ (x ++ l'), by simp⟩
  | haltsEntering hfresh _ _ => cases hfresh
  | haltsTicking htick ho => exact htick.first_tick ho
  | @haltsExiting e status l x _ h _ =>
    obtain ⟨l', rfl⟩ := h.first_tick
    exact ⟨x ++ l', by simp⟩

/-- A frame that comes to its end has its answer noted, below that the call that it answers. -/
theorem Driven.ends (h : σ.Driven dt fresh (.ok status) l) : ∃ l₁ l₂ l₃,
    l = l₁ ++ .returned σ (some status) :: (l₂ ++ .called σ (.tick dt) :: l₃) := by
  cases h with
  | goesOn h =>
    obtain ⟨l₂, l₃, rfl⟩ := h.ends
    exact ⟨[], l₂, l₃, rfl⟩
  | @settles status l x n _ h _ _ =>
    obtain ⟨l₂, l₃, rfl⟩ := h.ends
    exact ⟨n ++ x, l₂, l₃, by simp⟩

end Site

/-- A message that is written only when steps are traced. -/
theorem Stage.journal_traced (s : Stage) (m : Notice) :
    ∃ n, (if s.settings.traceSteps then s.note (.notice m) else s).journal = n ++ s.journal ∧
      ∀ e ∈ n, ∃ m, e = .notice m := by
  split
  · exact ⟨[.notice m], rfl, by simp⟩
  · exact ⟨[], rfl, by simp⟩

namespace Cue

variable {π : Type} (c : Cue) {source : Source} {label : String} {index : Nat} {dt : Float32}
  {fresh : Bool} {enter exit : Play π Unit} {tick : Play π Status}

theorem enter_apply (body : Play π Unit) (x : π × Stage) : c.enter body x =
    match body (x.1, x.2.note (.called c.site .enter)) with
      | (.ok _, p, t) => (.ok (), p, t.note (.returned c.site none))
      | (.error e, p, t) => (.error e, p, t) := by
  simp only [Cue.enter, Play.bind_apply, Play.note_apply]
  rcases body (x.1, x.2.note (.called c.site .enter)) with ⟨e | a, p, t⟩ <;> rfl

theorem tick_apply (body : Play π Status) (x : π × Stage) : c.tick dt body x =
    match body (x.1, x.2.note (.called c.site (.tick dt))) with
      | (.ok status, p, t) => (.ok status, p, t.note (.returned c.site (some status)))
      | (.error e, p, t) => (.error e, p, t) := by
  simp only [Cue.tick, Play.bind_apply, Play.note_apply]
  rcases body (x.1, x.2.note (.called c.site (.tick dt))) with ⟨e | a, p, t⟩ <;> rfl

theorem exit_apply (body : Play π Unit) (x : π × Stage) : c.exit body x =
    match body (x.1, x.2.note (.called c.site .exit)) with
      | (.ok _, p, t) => (.ok (), p, t.note (.returned c.site none))
      | (.error e, p, t) => (.error e, p, t) := by
  simp only [Cue.exit, Play.bind_apply, Play.note_apply]
  rcases body (x.1, x.2.note (.called c.site .exit)) with ⟨e | a, p, t⟩ <;> rfl

theorem openStep_apply (x : π × Stage) : c.openStep source label index fresh enter x =
    if fresh then c.enter enter (x.1, if x.2.settings.traceSteps then
      x.2.note (.notice (.entered source c.owner label index)) else x.2) else (.ok (), x) := by
  cases fresh with
  | false => rfl
  | true =>
    simp only [openStep, if_true, Play.bind_apply]
    show (if x.2.settings.traceSteps = true then _ else _ : Play π Unit) x = _
    split
    · rw [Play.bind_apply]
      rfl
    · rfl

theorem closeStep_apply (status : Status) (x : π × Stage) :
    c.closeStep source label index status exit x =
      if status.isTerminal then
        match c.exit exit x with
        | (.ok _, p, t) => (.ok (), p, if t.settings.traceSteps then
            t.note (.notice (.exited source c.owner label index status)) else t)
        | (.error e, p, t) => (.error e, p, t)
      else (.ok (), x) := by
  rw [closeStep]
  split
  · simp only [Play.bind_apply]
    rcases c.exit exit x with ⟨e | a, p, t⟩
    · rfl
    · show (if t.settings.traceSteps = true then _ else _ : Play π Unit) (p, t) = _
      simp only
      split <;> rfl
  · rfl

theorem enter_called {body : Play π Unit} (h : body.Grows) (x : π × Stage) :
    ∃ l, c.site.Called .enter ((c.enter body x).1.map fun _ => none) l ∧
      (c.enter body x).2.2.journal = l ++ x.2.journal := by
  obtain ⟨l, hl⟩ := h (x.1, x.2.note (.called c.site .enter))
  rw [enter_apply]
  rcases hb : body (x.1, x.2.note (.called c.site .enter)) with ⟨e | a, p, t⟩ <;> rw [hb] at hl
  · exact ⟨_, .halts e l, by simpa [Stage.note] using hl⟩
  · exact ⟨_, .returns none l, by simpa [Stage.note] using hl⟩

theorem tick_called (dt : Float32) {body : Play π Status} (h : body.Grows) (x : π × Stage) :
    ∃ l, c.site.Called (.tick dt) ((c.tick dt body x).1.map some) l ∧
      (c.tick dt body x).2.2.journal = l ++ x.2.journal := by
  obtain ⟨l, hl⟩ := h (x.1, x.2.note (.called c.site (.tick dt)))
  rw [tick_apply]
  rcases hb : body (x.1, x.2.note (.called c.site (.tick dt))) with ⟨e | a, p, t⟩ <;> rw [hb] at hl
  · exact ⟨_, .halts e l, by simpa [Stage.note] using hl⟩
  · exact ⟨_, .returns (some a) l, by simpa [Stage.note] using hl⟩

theorem exit_called {body : Play π Unit} (h : body.Grows) (x : π × Stage) :
    ∃ l, c.site.Called .exit ((c.exit body x).1.map fun _ => none) l ∧
      (c.exit body x).2.2.journal = l ++ x.2.journal := by
  obtain ⟨l, hl⟩ := h (x.1, x.2.note (.called c.site .exit))
  rw [exit_apply]
  rcases hb : body (x.1, x.2.note (.called c.site .exit)) with ⟨e | a, p, t⟩ <;> rw [hb] at hl
  · exact ⟨_, .halts e l, by simpa [Stage.note] using hl⟩
  · exact ⟨_, .returns none l, by simpa [Stage.note] using hl⟩

/-- Entering a fresh step: it halts there, or is open. -/
theorem openStep_opened (dt : Float32) (h : enter.Grows) {x y : π × Stage} {r : Except Halt Unit}
    (hopen : c.openStep source label index fresh enter x = (r, y)) :
    ∃ l, y.2.journal = l ++ x.2.journal ∧
      match r with
      | .ok _ => c.site.Opened fresh l
      | .error e => c.site.Driven dt fresh (.error e) l := by
  rw [openStep_apply] at hopen
  cases fresh with
  | false =>
    obtain ⟨rfl, rfl⟩ := Prod.mk.inj hopen
    exact ⟨[], rfl, .before⟩
  | true =>
    rw [if_pos rfl] at hopen
    obtain ⟨n, hjournal, hn⟩ := x.2.journal_traced (.entered source c.owner label index)
    generalize (if x.2.settings.traceSteps then
      x.2.note (.notice (.entered source c.owner label index)) else x.2) = u at hopen hjournal
    obtain ⟨l, hl, hcalled⟩ := c.enter_called h (x.1, u)
    rw [hopen, hjournal, ← List.append_assoc] at hcalled
    rw [hopen] at hl
    refine ⟨l ++ n, hcalled, ?_⟩
    cases r with
    | ok a => exact .now hl hn
    | error e => exact .haltsEntering rfl hl hn

/-- Exiting a step that has settled. -/
theorem closeStep_driven (h : exit.Grows) {status : Status} {l : List Entry}
    (hl : c.site.Ticked dt fresh status l) {x y : π × Stage} {r : Except Halt Unit}
    (hclose : c.closeStep source label index status exit x = (r, y)) :
    ∃ l', y.2.journal = l' ++ x.2.journal ∧
      c.site.Driven dt fresh (r.map fun _ => status) (l' ++ l) := by
  rw [closeStep_apply] at hclose
  cases hterminal : status.isTerminal with
  | false =>
    rw [hterminal] at hclose
    obtain ⟨rfl, rfl⟩ := Prod.mk.inj hclose
    have hrunning : status = .running := by
      cases status with
      | running => rfl
      | succeeded => cases hterminal
      | failed => cases hterminal
    subst hrunning
    exact ⟨[], rfl, .goesOn hl⟩
  | true =>
    rw [hterminal, if_pos rfl] at hclose
    obtain ⟨l', hcalled, hjournal⟩ := c.exit_called h x
    rcases hexit : c.exit exit x with ⟨e | a, p, t⟩ <;> rw [hexit] at hclose hcalled hjournal
    · obtain ⟨rfl, rfl⟩ := Prod.mk.inj hclose
      exact ⟨l', hjournal, .haltsExiting hterminal hl hcalled⟩
    · obtain ⟨rfl, rfl⟩ := Prod.mk.inj hclose
      obtain ⟨n, htraced, hn⟩ := t.journal_traced (.exited source c.owner label index status)
      have hjournal : t.journal = l' ++ x.2.journal := hjournal
      refine ⟨n ++ l', by rw [List.append_assoc, ← hjournal]; exact htraced, ?_⟩
      rw [List.append_assoc]
      exact .settles hterminal hl hcalled hn

/-- The journal tells of the calls of a drive, each with its return, in their order. -/
theorem drive_driven (he : enter.Grows) (ht : tick.Grows) (hx : exit.Grows) (x : π × Stage) :
    let y := c.drive source label index dt fresh enter tick exit x
    ∃ l, y.2.2.journal = l ++ x.2.journal ∧ c.site.Driven dt fresh y.1 l := by
  intro y
  have hy : y = c.drive source label index dt fresh enter tick exit x := rfl
  simp only [drive, tickStep, Play.bind_apply] at hy
  rcases hopen : c.openStep source label index fresh enter x with ⟨r, x₁⟩
  obtain ⟨o, ho, hopened⟩ := c.openStep_opened dt he hopen
  rw [hopen] at hy
  cases r with
  | error e =>
    rw [hy]
    exact ⟨o, ho, hopened⟩
  | ok _ =>
  obtain ⟨l, hcalled, hl⟩ := c.tick_called dt ht x₁
  simp only at hy
  rcases htick : c.tick dt tick x₁ with ⟨e | status, x₂⟩ <;> rw [htick] at hy hcalled hl
  · have hl : x₂.2.journal = l ++ x₁.2.journal := hl
    rw [hy]
    exact ⟨l ++ o, by rw [hl, ho, List.append_assoc], .haltsTicking hcalled hopened⟩
  have hl : x₂.2.journal = l ++ x₁.2.journal := hl
  simp only at hy
  rcases hclose : c.closeStep source label index status exit x₂ with ⟨r, x₃⟩
  obtain ⟨l', hl', hdriven⟩ := c.closeStep_driven hx (.intro hcalled hopened) hclose
  rw [hclose] at hy
  have hy : y = (r.map fun _ => status, x₃) := by
    rw [hy]
    cases r <;> rfl
  rw [hy]
  exact ⟨l' ++ (l ++ o), by rw [hl', hl, ho, List.append_assoc, List.append_assoc], hdriven⟩

end Cue

theorem Step.drive_driven {run : Runner} (hrun : run.Follows) (x : Step Command) (cue : Cue)
    (source : Source) (index : Nat) (dt : Float32) (fresh : Bool) (y : x.Progress × Stage) :
    let z := cue.drive source x.label index dt fresh (x.enter run cue) (x.tick run dt cue)
      (x.exit run cue) y
    ∃ l, z.2.2.journal = l ++ y.2.journal ∧ cue.site.Driven dt fresh z.1 l :=
  have hexit : (x.exit run cue).Follows (Below cue.site) := Step.exit_follows hrun x cue
  cue.drive_driven (Step.enter_follows hrun x cue).grows (Step.tick_follows hrun x cue).grows
    hexit.grows y

namespace Conductor

variable {run : Runner} {dt : Float32} {id : Nat} {u w : Stage} {q : Sequence} {part : Part}
  {x y : part.step.Progress × Stage} {r : Except Halt Status}

theorem playPart_driven (hrun : run.Follows) (h : playPart run dt id q part x = (r, y)) :
    ∃ l, y.2.journal = l ++ x.2.journal ∧ (Site.top id q.current).Driven dt (!q.entered) r l := by
  obtain ⟨l, hl, hdriven⟩ := part.step.drive_driven hrun ⟨q.name, .top id q.current⟩ .sequence
    q.current dt (!q.entered) x
  have hl : (playPart run dt id q part x).2.2.journal = l ++ x.2.journal := hl
  have hdriven : (Site.top id q.current).Driven dt (!q.entered)
    (playPart run dt id q part x).1 l := hdriven
  rw [h] at hl hdriven
  exact ⟨l, hl, hdriven⟩

theorem playPart_calls (hrun : run.Follows) (h : playPart run dt id q part x = (r, y)) :
    ∃ l call n, y.2.journal = l ++ .called (.top id q.current) call :: (n ++ x.2.journal) ∧
      (∀ e ∈ n, ∃ m, e = .notice m) ∧ (call = .enter ↔ q.entered = false) := by
  obtain ⟨l, hl, hdriven⟩ := playPart_driven hrun h
  obtain ⟨l', call, n, rfl, hn, hcall⟩ := hdriven.calls
  exact ⟨l', call, n, by simp [hl], hn, hcall.trans (by simp)⟩

theorem playPart_answers (hrun : run.Follows) {status : Status}
    (h : playPart run dt id q part x = (.ok status, y)) :
    ∃ l l', y.2.journal =
      l ++ .returned (.top id q.current) (some status) :: (l' ++ x.2.journal) := by
  obtain ⟨l, hl, hdriven⟩ := playPart_driven hrun h
  obtain ⟨l₁, l₂, l₃, rfl⟩ := hdriven.ends
  exact ⟨l₁, l₂ ++ .called (.top id q.current) (.tick dt) :: l₃, by simp [hl]⟩

/-- The turn of a sequence that is due and past its last step. -/
theorem turn_completes (hrun : run.Follows) (hd : u.Due id)
    (hc : (u.sequence id).stepCount ≤ (u.sequence id).current) {r : Except Halt Unit}
    (h : turn run dt id u = (r, w)) : ∃ l b n,
      w.journal = (l ++ [.notified id (u.sequence id).name .completed b, .notice n]) ++
        .turn id .completed :: u.journal := by
  rw [turn_completed hd.running hc] at h
  obtain ⟨l, hl⟩ := (finish_leads Nowhere hrun id (u.note (.turn id .completed))).course.grows
  have hname : (((u.note (.turn id .completed)).modify id Sequence.ended).sequence id).name =
      (u.sequence id).name :=
    (u.note (.turn id .completed)).field_modify (·.name) (f := Sequence.ended) (fun _ => rfl) id id
  rw [h] at hl
  rw [show w.journal = _ from hl, Stage.ending, Stage.journal_notify, Stage.sequence_note, hname]
  exact ⟨l, _, _, by rw [List.append_assoc]; rfl⟩

theorem journal_takeTurn (run : Runner) (dt : Float32) {id : Nat} {s : Stage}
    (h : (s.sequence id).paused = false) :
    (takeTurn run dt id s).2.journal = (turn run dt id s).2.journal := by
  rw [takeTurn_unpaused h]
  rcases turn run dt id s with ⟨e | _, t⟩
  · rfl
  · exact t.journal_sweep id

end Conductor

end Sequencer
