import Sequencer.Proofs.Accord.Conductor
import Sequencer.Proofs.Course.Drive
import Sequencer.Proofs.Diagnostics.Agree

/-!
# Settings and sink are diagnostics only

Whatever the settings, and whether events are kept or go nowhere, the same commands lead to stages
that agree: every operation keeps agreement, and so does every step, as long as the code in them is
blind.
-/

set_option autoImplicit false

namespace Sequencer

def Runner.Accords (run run' : Runner) : Prop :=
  ∀ c : Command, c.Blind → Act.Accords .diagnostic (run c) (run' c)

namespace Act.Accords

variable {α : Type}

theorem noted (e : Entry) : Act.Accords .diagnostic (.note e) (.note e) :=
  change fun _ _ h => h.note e

theorem hosting {f g : Stage → Host} (hf : ∀ s t : Stage, s.Agree t → (f s).Same (g t)) :
    Act.Accords .diagnostic (.change fun s => { s with host := f s })
      (.change fun s => { s with host := g s }) :=
  change fun s t h => h.hosting (hf s t h)

theorem inScene (f : Scene → α × Scene) :
    Act.Accords .diagnostic (.inScene f) (.inScene f) := by
  intro s t h
  show Accord.diagnostic.Same (.ok (f s.host.scene).1) (.ok (f t.host.scene).1) ∧
    Stage.Agree { s with host := { s.host with scene := (f s.host.scene).2 } }
      { t with host := { t.host with scene := (f t.host.scene).2 } }
  rw [h.host.scene]
  exact ⟨.ok rfl, h.hosting (by rw [h.host]; rfl)⟩

/-- A change of the host that has nothing to do with the sink. -/
theorem onHost {f : Host → Host} (hf : ∀ h k : Host, h.Same k → (f h).Same (f k)) :
    Act.Accords .diagnostic (onHost f) (onHost f) :=
  hosting fun _ _ h => hf _ _ h.host

theorem resolved (label : String) :
    Act.Accords .diagnostic (resolved label) (resolved label) := by
  refine .read_bind fun s t h => ?_
  rw [h.host.resolve]
  exact ⟨.ok rfl, h⟩

end Act.Accords

section

variable {run run' : Runner}

namespace Simple

theorem invokeSystem_diagnostic (system : String) (command : Instruction) :
    Act.Accords .diagnostic (invokeSystem system command) (invokeSystem system command) :=
  .bind (.inScene _) fun _ => .bind (.noted _) fun _ => .pure _

theorem setComponent_diagnostic (entity : EntityId) (component : String) (enabled : Bool) :
    Act.Accords .diagnostic (setComponent entity component enabled)
      (setComponent entity component enabled) :=
  .bind (.inScene _) fun _ => .bind (.noted _) fun _ => .pure _

theorem setPose_diagnostic (entity : EntityId) (pose : Pose) :
    Act.Accords .diagnostic (setPose entity pose) (setPose entity pose) := by
  have hnoted : ∀ ok : Bool, Act.Accords .diagnostic
      (do
        .note (.poseSet entity pose ok)
        return ok : Act Bool)
      (do
        .note (.poseSet entity pose ok)
        return ok) := fun ok => .bind (.noted _) fun _ => .pure ok
  refine .bind (.read fun s t h => by rw [h.host.locked]) fun locked => ?_
  exact .ite (.bind (.pure false) hnoted) (.bind (.inScene _) hnoted)

end Simple

theorem performAll_diagnostic (h : run.Accords run') :
    (l : List Command) → (∀ c ∈ l, c.Blind) →
    Act.Accords .diagnostic (performAll run l) (performAll run' l)
  | [], _ => .pure ()
  | c :: rest, hl => .bind (h c (hl c List.mem_cons_self)) fun _ => .bind (.noted _) fun _ =>
      performAll_diagnostic h rest fun d hd => hl d (List.mem_cons_of_mem c hd)

theorem Runner.Accords.attends (h : run.Accords run') : Accord.diagnostic.Attends run run' where
  code l hl := performAll_diagnostic h l hl
  condition c _ := c.answers_diagnostic

/-- A step whose code is blind asks nothing of the world that does not accord. -/
theorem Step.allows_diagnostic (h : run.Accords run') (owner : String) (x : Step Command)
    (hx : ∀ c ∈ x.commands, c.Blind) : Accord.diagnostic.Allows run run' owner x := by
  cases x with
  | invoke system command => exact Simple.invokeSystem_diagnostic system command
  | component entity component enabled =>
    exact fun id => Simple.setComponent_diagnostic id component enabled
  | call commands => exact performAll_diagnostic h commands hx
  | startSequence target => exact Conductor.startAnother_accords h.attends trivial owner
  | stopSequence target => exact Conductor.stop_accords h.attends trivial
  | tween t =>
    exact ⟨fun s t hst => by rw [hst.host.scene], Simple.setPose_diagnostic⟩
  | barrier barrier expected =>
    exact ⟨fun s t hst => by rw [hst.barriers], fun s t hst => hst.arrive barrier⟩
  | custom onEnter onTick onExit script =>
    refine ⟨performAll_diagnostic h onEnter fun c hc => hx c ?_,
      performAll_diagnostic h onTick fun c hc => hx c ?_,
      performAll_diagnostic h onExit fun c hc => hx c ?_⟩ <;> simp [Step.commands, hc]
  | _ => trivial

theorem Question.hears_diagnostic (h : run.Accords run') (q : Question Command)
    (hq : ∀ c ∈ q.code, c.Blind) : Accord.diagnostic.Hears run run' q :=
  ⟨performAll_diagnostic h q.code hq, q.answers_diagnostic⟩

theorem Step.inAccord_diagnostic (h : run.Accords run') (owner : String) (x : Step Command)
    (hx : ∀ c ∈ x.commands, c.Blind) : x.InAccord .diagnostic run run' owner :=
  x.each_of_commands (Step.allows_diagnostic h owner) (Question.hears_diagnostic h) hx

theorem stepsInAccord_diagnostic (h : run.Accords run') (owner : String)
    (l : List (Step Command)) (hl : ∀ c ∈ stepsCommands l, c.Blind) :
    stepsInAccord .diagnostic run run' owner l :=
  stepsEach_of_commands (Step.allows_diagnostic h owner) (Question.hears_diagnostic h) l hl

theorem Runner.Accords.carries (h : run.Accords run') : Accord.diagnostic.Carries run run' where
  toAttends := h.attends
  step x owner _ hx := x.inAccord_diagnostic h owner hx

namespace Conductor

theorem enroll_diagnostic {p q : Sequence} (hpq : p.Akin q) (hp : p.Fits .blind) :
    Act.Accords .diagnostic (enroll p) (enroll q) := by
  unfold enroll
  rw [hpq.name]
  refine .bind (.read fun s t h => by rw [h.find?]) fun taken => .ite (.pure _) ?_
  exact .bind (.say _ _) fun _ => .bind (.change fun _ _ h => h.enroll hpq hp) fun _ => .pure _

theorem register_diagnostic {o : Outline Command} (ho : ∀ c ∈ o.commands, c.Blind) :
    Act.Accords .diagnostic (register o) (register o) := by
  refine .read_bind fun s t h => ?_
  rw [h.host.resolve]
  exact enroll_diagnostic (.refl _) ((Outline.fits_blind ho).build _) s t h

theorem takeTurns_diagnostic (h : run.Accords run') (dt : Float32) :
    (l : List Nat) → Act.Accords .diagnostic (takeTurns run dt l) (takeTurns run' dt l)
  | [] => .pure ()
  | _ :: rest => .bind (takeTurn_accords h.carries rfl dt) fun _ => takeTurns_diagnostic h dt rest

theorem tick_diagnostic (h : run.Accords run') (dt : Float32) :
    Act.Accords .diagnostic (tick run dt) (tick run' dt) :=
  .bind (.read fun s t hst => by rw [hst.active]) fun l => takeTurns_diagnostic h dt l

theorem tickMany_diagnostic (h : run.Accords run') (dt : Float32) (first n : Nat) :
    Act.Accords .diagnostic (tickMany run dt first n) (tickMany run' dt first n) := by
  induction n generalizing first with
  | zero => exact .pure ()
  | succ n ih => exact .bind (.noted _) fun _ => .bind (tick_diagnostic h dt) fun _ => ih _

end Conductor

namespace Hands

theorem cueOf_mates (slot : String) : (cueOf slot).Mates .diagnostic (cueOf slot) :=
  ⟨rfl, trivial, .held slot⟩

theorem erase_agree {s t : Stage} (h : s.Agree t) (slot : String) :
    Stage.Agree { s with held := s.held.erase slot } { t with held := t.held.erase slot } := by
  refine h.holding fun key => ?_
  by_cases hk : key = slot
  · subst hk
    rw [Table.get?_erase_self, Table.get?_erase_self]
    exact .none
  · rw [Table.get?_erase_ne _ hk, Table.get?_erase_ne _ hk]
    exact h.held key

theorem put_agree {s t : Stage} (h : s.Agree t) (slot : String) {x y : Held} (hxy : x.Akin y) :
    Stage.Agree { s with held := s.held.put slot x } { t with held := t.held.put slot y } := by
  refine h.holding fun key => ?_
  by_cases hk : key = slot
  · subst hk
    rw [Table.get?_put_self, Table.get?_put_self]
    exact .some hxy
  · rw [Table.get?_put_ne _ _ hk, Table.get?_put_ne _ _ hk]
    exact h.held key

theorem put_diagnostic (slot : String) {x y : Held} (hxy : x.Akin y) :
    Act.Accords .diagnostic (put slot x) (put slot y) :=
  .change fun _ _ h => put_agree h slot hxy

/-- What is built is built alike. -/
theorem resolver_diagnostic {α : Type} {k : (String → EntityId) → Act α}
    (hk : ∀ resolve, Act.Accords .diagnostic (k resolve) (k resolve)) :
    Act.Accords .diagnostic (resolver >>= k) (resolver >>= k) :=
  .bind (.read_bind fun _ _ h => ⟨.ok h.host.resolve, h⟩) hk

theorem holdStep_diagnostic (slot : String) {x : Step Command} (hx : ∀ c ∈ x.commands, c.Blind) :
    Act.Accords .diagnostic (holdStep slot x) (holdStep slot x) :=
  resolver_diagnostic fun _ => .bind (put_diagnostic slot (.part (.refl _) hx)) fun _ => .pure _

theorem holdTrack_diagnostic (slot : String) {l : List (Step Command)} (onFailure : OnFailure)
    (hl : ∀ c ∈ stepsCommands l, c.Blind) :
    Act.Accords .diagnostic (holdTrack slot l onFailure) (holdTrack slot l onFailure) :=
  resolver_diagnostic fun _ => .bind
    (put_diagnostic slot (.track ⟨rfl, rfl, childrenAkin_refl l _⟩ hl)) fun _ => .pure _

theorem holdSequence_diagnostic (slot : String) {o : Outline Command}
    (ho : ∀ c ∈ o.commands, c.Blind) :
    Act.Accords .diagnostic (holdSequence slot o) (holdSequence slot o) :=
  resolver_diagnostic fun resolve => .bind
    (put_diagnostic slot (.sequence (.refl _) ((Outline.fits_blind ho).build resolve))) fun _ =>
      .pure _

theorem afterTick_akin {p q : Part} (h : p.Akin q) (status : Status) :
    afterTick q status = afterTick p status := by
  cases h with
  | @intro x a b hab =>
    cases x with
    | retry attempts steps => exact congrArg (Reply.retry (some status)) hab.failures
    | _ => rfl

variable {α : Type} {slot : String}

theorem playPart_diagnostic {play play' : (x : Step Command) → Play x.Progress α}
    {answer : Part → α → Reply}
    (h : ∀ x : Step Command, (∀ c ∈ x.commands, c.Blind) →
      Play.Accords .diagnostic x.Akin (play x) (play' x))
    (ha : ∀ {p q : Part}, p.Akin q → ∀ a, answer q a = answer p a) :
    Act.Accords .diagnostic (playPart slot play answer) (playPart slot play' answer) := by
  intro s t hst
  have hheld := hst.held slot
  generalize hs : s.held.get? slot = a at hheld
  generalize ht : t.held.get? slot = b at hheld
  simp only [playPart, hs, ht]
  cases hheld with
  | none => exact ⟨.ok rfl, hst⟩
  | some hheld =>
    cases hheld with
    | track _ _ => exact ⟨.ok rfl, hst⟩
    | sequence _ _ => exact ⟨.ok rfl, hst⟩
    | part hpq hx =>
      cases hpq with
      | intro hpq =>
        obtain ⟨hr, hp, hu⟩ := h _ hx _ _ _ _ hpq (erase_agree hst slot)
        dsimp only
        exact ⟨hr.map (ha (.intro hp)), put_agree hu slot (.part (.intro hp) hx)⟩

theorem playTrack_diagnostic {play play' : (t : HeldTrack) → Play (Track (Children t.steps)) α}
    {answer : HeldTrack → α → Reply}
    (h : ∀ (steps : List (Step Command)) (onFailure : OnFailure) (t u : Track (Children steps)),
      (∀ c ∈ stepsCommands steps, c.Blind) →
      Play.Accords .diagnostic (Track.Akin (childrenAkin steps)) (play ⟨steps, onFailure, t⟩)
        (play' ⟨steps, onFailure, u⟩))
    (ha : ∀ (steps : List (Step Command)) (onFailure : OnFailure) (t u : Track (Children steps)),
      t.Akin (childrenAkin steps) u → ∀ a,
      answer ⟨steps, onFailure, u⟩ a = answer ⟨steps, onFailure, t⟩ a) :
    Act.Accords .diagnostic (playTrack slot play answer) (playTrack slot play' answer) := by
  intro s t hst
  have hheld := hst.held slot
  generalize hs : s.held.get? slot = a at hheld
  generalize ht : t.held.get? slot = b at hheld
  simp only [playTrack, hs, ht]
  cases hheld with
  | none => exact ⟨.ok rfl, hst⟩
  | some hheld =>
    cases hheld with
    | part _ _ => exact ⟨.ok rfl, hst⟩
    | sequence _ _ => exact ⟨.ok rfl, hst⟩
    | track htu hl =>
      obtain ⟨hr, hp, hu⟩ := h _ _ _ _ hl _ _ _ _ htu (erase_agree hst slot)
      dsimp only
      exact ⟨hr.map (ha _ _ _ _ hp), put_agree hu slot (.track hp hl)⟩

theorem enter_diagnostic (h : run.Accords run') (slot : String) :
    Act.Accords .diagnostic (enter run slot) (enter run' slot) :=
  playPart_diagnostic (fun x hx => Cue.enter_accords (cueOf_mates slot)
    (Step.enter_accords x (cueOf_mates slot) (x.inAccord_diagnostic h "host" hx))) fun _ _ => rfl

theorem exit_diagnostic (h : run.Accords run') (slot : String) :
    Act.Accords .diagnostic (exit run slot) (exit run' slot) :=
  playPart_diagnostic (fun x hx => Cue.exit_accords (cueOf_mates slot)
    (Step.exit_accords x (cueOf_mates slot) (x.inAccord_diagnostic h "host" hx))) fun _ _ => rfl

theorem tick_diagnostic (h : run.Accords run') (slot : String) (dt : Float32) :
    Act.Accords .diagnostic (tick run slot dt) (tick run' slot dt) :=
  playPart_diagnostic (fun x hx => Cue.tick_accords (cueOf_mates slot) dt
    (Step.tick_accords x (cueOf_mates slot) rfl (x.inAccord_diagnostic h "host" hx)))
    fun hpq status => afterTick_akin hpq status

theorem describeTrack_akin {steps : List (Step Command)} {onFailure : OnFailure}
    {t u : Track (Children steps)} (h : t.Akin (childrenAkin steps) u) (status : Option Status) :
    describeTrack ⟨steps, onFailure, u⟩ status = describeTrack ⟨steps, onFailure, t⟩ status := by
  simp only [describeTrack, h.cursor]

theorem tickTrack_diagnostic (h : run.Accords run') (slot : String) (dt : Float32) :
    Act.Accords .diagnostic (tickTrack run slot dt) (tickTrack run' slot dt) := by
  refine playTrack_diagnostic (fun steps onFailure t u hl => Track.tick_accords fun i fresh => ?_)
    fun _ _ _ _ htu status => describeTrack_akin htu (some status)
  exact driveNth_accords steps ((cueOf_mates slot).child i) rfl i i fresh
    (stepsInAccord_diagnostic h "host" steps hl)

theorem cancelTrack_diagnostic (h : run.Accords run') (slot : String) :
    Act.Accords .diagnostic (cancelTrack run slot) (cancelTrack run' slot) := by
  refine playTrack_diagnostic (fun steps onFailure t u hl => Track.cancel_accords fun i => ?_)
    fun _ _ _ _ htu _ => describeTrack_akin htu none
  exact exitNth_accords steps ((cueOf_mates slot).child i) i
    (stepsInAccord_diagnostic h "host" steps hl)

theorem rewindTrack_diagnostic (slot : String) :
    Act.Accords .diagnostic (rewindTrack slot) (rewindTrack slot) :=
  playTrack_diagnostic (fun _ _ _ _ _ => .change fun _ _ h => h.rewound)
    fun _ _ _ _ htu _ => describeTrack_akin htu none

theorem register_diagnostic (slot : String) :
    Act.Accords .diagnostic (register slot) (register slot) := by
  intro s t hst
  have hheld := hst.held slot
  generalize hs : s.held.get? slot = a at hheld
  generalize ht : t.held.get? slot = b at hheld
  simp only [register, hs, ht]
  cases hheld with
  | none => exact ⟨.ok rfl, hst⟩
  | some hheld =>
    cases hheld with
    | part _ _ => exact ⟨.ok rfl, hst⟩
    | track _ _ => exact ⟨.ok rfl, hst⟩
    | sequence hpq hp =>
      obtain ⟨hr, hu⟩ := Conductor.enroll_diagnostic hpq hp _ _ (erase_agree hst slot)
      dsimp only
      exact ⟨hr.map fun _ => rfl, hu⟩

end Hands

/-- An edit of the host's own state accords, unless it takes what the sink has kept. -/
theorem Change.apply_diagnostic (c : Change) (hc : (Command.edit c).looks = false) :
    Act.Accords .diagnostic c.apply c.apply := by
  cases c with
  | takeEvents => cases hc
  | engine frame elapsed timeScale =>
    exact .bind (.onHost fun h k e => by rw [e]; rfl) fun _ => .pure _
  | flag name value => exact .bind (.onHost fun h k e => by rw [e]; rfl) fun _ => .pure _
  | count name amount =>
    exact .bind (.read fun s t h => by rw [h.host.counters]) fun _ =>
      .bind (.onHost fun h k e => by rw [e]; rfl) fun _ => .pure _
  | publish event => exact .bind (.publish event) fun _ => .pure _
  | addSystem name => exact .bind (.inScene _) fun _ => .pure _
  | invoke system command =>
    exact .bind (Simple.invokeSystem_diagnostic system command) fun _ => .pure _
  | spawn label pose =>
    exact .bind (.inScene _) fun _ => .bind (.onHost fun h k e => by rw [e]; rfl) fun _ => .pure _
  | despawn label => exact .bind (.resolved label) fun _ => .bind (.inScene _) fun _ => .pure _
  | addComponent label component enabled =>
    exact .bind (.resolved label) fun _ => .bind (.inScene _) fun _ => .pure _
  | setComponent label component enabled =>
    exact .bind (.resolved label) fun entity =>
      .bind (Simple.setComponent_diagnostic entity component enabled) fun _ => .pure _
  | setPose label pose =>
    exact .bind (.resolved label) fun entity =>
      .bind (Simple.setPose_diagnostic entity pose) fun _ => .pure _
  | lock label =>
    exact .bind (.resolved label) fun _ =>
      .bind (.onHost fun h k e => by rw [e]; rfl) fun _ => .pure _
  | arrive barrier =>
    exact .bind (.change fun _ _ h => h.arrive barrier) fun _ =>
      .bind (.read fun s t h => by rw [h.barriers]) fun _ => .pure _

theorem dispatch_diagnostic (h : run.Accords run') {c : Command} (hc : c.Blind) :
    Act.Accords .diagnostic (dispatch run c) (dispatch run' c) := by
  have hlooks := hc.looks
  have hcode := hc.closures
  cases c with
  | register outline => exact .bind (Conductor.register_diagnostic hcode) fun _ => .pure _
  | start name => exact .bind (Conductor.start_accords h.attends trivial) fun _ => .pure _
  | stop name => exact .bind (Conductor.stop_accords h.attends trivial) fun _ => .pure _
  | pause name => exact .bind (Conductor.setPaused_accords trivial _) fun _ => .pure _
  | resume name => exact .bind (Conductor.setPaused_accords trivial _) fun _ => .pure _
  | togglePause name => exact .bind (Conductor.setPaused_accords trivial _) fun _ => .pure _
  | reset name => exact .bind (Conductor.reset_accords trivial) fun _ => .pure _
  | remove name => exact .bind (Conductor.remove_accords h.attends trivial) fun _ => .pure _
  | tick dt count =>
    cases count with
    | none => exact .bind (Conductor.tick_diagnostic h dt) fun _ => .pure _
    | some n => exact .bind (Conductor.tickMany_diagnostic h dt 0 n) fun _ => .pure _
  | capture name keepAs =>
    refine .bind (Conductor.capture_accords trivial) fun b => ?_
    cases keepAs with
    | none => exact .pure _
    | some key =>
      cases b with
      | none => exact .pure _
      | some b => exact .bind (.onHost fun h k e => by rw [e]; rfl) fun _ => .pure _
  | restore place =>
    cases place with
    | «at» b => exact .bind (Conductor.restore_accords trivial) fun _ => .pure _
    | kept key =>
      refine .bind (.read fun s t h => by rw [h.host.bookmarks]) fun b => ?_
      cases b with
      | none => exact .pure _
      | some b => exact .bind (Conductor.restore_accords trivial) fun _ => .pure _
  | ask query => exact .read fun s t h => query.answer_agree h hlooks
  | edit change => exact change.apply_diagnostic hlooks
  | panic message => exact .halt False.elim _
  | holdStep slot step => exact Hands.holdStep_diagnostic slot hcode
  | enterHeld slot => exact Hands.enter_diagnostic h slot
  | tickHeld slot dt => exact Hands.tick_diagnostic h slot dt
  | exitHeld slot => exact Hands.exit_diagnostic h slot
  | holdTrack slot steps onFailure => exact Hands.holdTrack_diagnostic slot onFailure hcode
  | tickTrack slot dt => exact Hands.tickTrack_diagnostic h slot dt
  | cancelTrack slot => exact Hands.cancelTrack_diagnostic h slot
  | rewindTrack slot => exact Hands.rewindTrack_diagnostic slot
  | holdSequence slot outline => exact Hands.holdSequence_diagnostic slot hcode
  | registerHeld slot => exact Hands.register_diagnostic slot

end

/-- By induction on how deep callbacks nest. -/
theorem perform_diagnostic (depth : Nat) : (perform depth).Accords (perform depth) := by
  induction depth with
  | zero => exact fun _ _ => .halt False.elim _
  | succ depth ih => exact fun c hc => dispatch_diagnostic ih hc

/-- Looking changes nothing but what the sink has kept. -/
theorem dispatch_looks (run run' : Runner) {c : Command} (hc : c.looks = true) {s t : Stage}
    (h : s.Agree t) : (dispatch run c s).2.Agree (dispatch run' c t).2 := by
  unfold Command.looks at hc
  split at hc
  · exact h
  · exact h
  · exact h.hosting (by rw [h.host]; rfl)
  · exact absurd hc Bool.false_ne_true

def Report.substance (c : Command) (r : Report) : Report :=
  { r with
    reply := if c.looks then .nothing else r.reply
    trace := r.trace.filter (·.isSubstance) }

/-- Whether the host reads the log makes no difference to the rest. -/
theorem filter_shown (log : Bool) (l : List Entry) :
    (l.filter (·.shown log)).filter (·.isSubstance) =
      (l.filter (·.isSubstance)).filter (·.shown true) := by
  rw [List.filter_filter, List.filter_filter]
  apply List.filter_congr
  intro e _
  cases e <;> simp [Entry.isSubstance, Entry.shown]

theorem Session.journal {calm : Bool} {s t : Stage} (h : Session calm s t) :
    ∃ l, t.journal = l ++ s.journal := h.leads.course.grows

/-- What is new on stages that agree again is the same, but for the diagnostics. -/
theorem Stage.Agree.newEntries {s t s' t' : Stage} (h : s.Agree t) (h' : s'.Agree t')
    (hs : ∃ l, s'.journal = l ++ s.journal) (ht : ∃ l, t'.journal = l ++ t.journal) :
    (t.newEntries t').filter (·.isSubstance) = (s.newEntries s').filter (·.isSubstance) := by
  obtain ⟨l, hl⟩ := hs
  obtain ⟨m, hm⟩ := ht
  have hjournal := h'.journal
  rw [hl, hm, List.filter_append, List.filter_append, h.journal] at hjournal
  rw [Stage.newEntries_of_append hl, Stage.newEntries_of_append hm, List.filter_reverse,
    List.filter_reverse, List.append_cancel_right hjournal]

/-- User code that does nothing but give commands, whose callbacks do so again. -/
def Runner.Proper (run : Runner) : Prop := ∀ c s, Session (run c s).1.isOk s (run c s).2

theorem Runner.Proper.perform (depth : Nat) : Runner.Proper (perform depth) :=
  Session.perform depth

theorem Runner.Proper.grows {run : Runner} (h : run.Proper) (c : Command) (s : Stage) :
    ∃ l, (dispatch run c s).2.journal = l ++ s.journal :=
  ((Session.refl s).command run c h).journal

namespace Stage

def reportBy (run : Runner) (log : Bool) (c : Command) (s : Stage) : Report × Stage :=
  let r := dispatch run c s
  ({ reply := replyOf r.1
     view := r.2.view
     trace := (s.newEntries r.2).filter (·.shown log) }, r.2)

def runBy (run : Runner) (log : Bool) : List Command → Stage → List Report × Stage
  | [], s => ([], s)
  | c :: rest, s =>
    let r := s.reportBy run log c
    let later := runBy run log rest r.2
    (r.1 :: later.1, later.2)

theorem report_eq (log : Bool) (c : Command) (s : Stage) :
    s.report log c = s.reportBy (perform (maxDepth - 1)) log c := rfl

theorem run_eq (log : Bool) (l : List Command) (s : Stage) :
    s.run log l = s.runBy (perform (maxDepth - 1)) log l := by
  induction l generalizing s with
  | nil => rfl
  | cons c rest ih => simp only [run, runBy, report_eq, ih]

end Stage

/-- Two runs of the same commands whose reports tell the same, and after which the stages agree. -/
def Matching (l : List Command) (r r' : List Report × Stage) : Prop :=
  List.zipWith Report.substance l r'.1 = List.zipWith Report.substance l r.1 ∧ r.2.Agree r'.2

section

variable {run run' : Runner}

theorem Stage.Agree.reportBy (hrun : run.Accords run') (hp : run.Proper) (hp' : run'.Proper)
    {s t : Stage} (h : s.Agree t) (log log' : Bool) {c : Command} (hc : c.looks = true ∨ c.Blind) :
    (t.reportBy run' log' c).1.substance c = (s.reportBy run log c).1.substance c ∧
      (s.reportBy run log c).2.Agree (t.reportBy run' log' c).2 := by
  have hreply : c.looks = true ∨
      replyOf (dispatch run' c t).1 = replyOf (dispatch run c s).1 :=
    hc.imp_right fun hc => congrArg replyOf (dispatch_diagnostic hrun hc s t h).1.eq
  have hagree : (dispatch run c s).2.Agree (dispatch run' c t).2 := by
    rcases hc with hc | hc
    · exact dispatch_looks run run' hc h
    · exact (dispatch_diagnostic hrun hc s t h).2
  have hnew := h.newEntries hagree (hp.grows c s) (hp'.grows c t)
  refine ⟨?_, hagree⟩
  simp only [Stage.reportBy, Report.substance, filter_shown, hnew, hagree.view, Report.mk.injEq,
    and_true]
  rcases hreply with hc | hr
  · rw [if_pos hc, if_pos hc]
  · rw [hr]

/-- By induction on the commands of the host. -/
theorem Stage.Agree.runBy (hrun : run.Accords run') (hp : run.Proper) (hp' : run'.Proper)
    (log log' : Bool) (l : List Command) (hl : ∀ c ∈ l, c.looks = true ∨ c.Blind)
    {s t : Stage} (h : s.Agree t) :
    Matching l (s.runBy run log l) (t.runBy run' log' l) := by
  induction l generalizing s t with
  | nil => exact ⟨rfl, h⟩
  | cons c rest ih =>
    obtain ⟨hreport, hagree⟩ := h.reportBy hrun hp hp' log log' (hl c List.mem_cons_self)
    obtain ⟨hreports, hlast⟩ := ih (fun d hd => hl d (List.mem_cons_of_mem c hd)) hagree
    refine ⟨?_, hlast⟩
    simp only [Stage.runBy, List.zipWith_cons_cons, hreport, hreports]

end

theorem Stage.Agree.run (log log' : Bool) (l : List Command)
    (hl : ∀ c ∈ l, c.looks = true ∨ c.Blind) {s t : Stage} (h : s.Agree t) :
    Matching l (s.run log l) (t.run log' l) := by
  rw [Stage.run_eq, Stage.run_eq]
  exact h.runBy (perform_diagnostic _) (.perform _) (.perform _) log log' l hl

/-- Hosts that differ in nothing but the sink, before the first command. -/
theorem opening_agree (settings settings' : Settings) (host : Host) (muted : Bool)
    (events : List Event) : (Stage.opening settings host).Agree
      (.opening settings' { host with muted, events }) where
  length := rfl
  akin _ := .refl _
  fits _ :=
    { named := trivial
      steps := fun _ hp => absurd hp List.not_mem_nil
      guard := fun _ _ => trivial
      validators := fun _ _ => trivial
      hooks := fun hook l hl => by cases hook <;> cases hl }
  registry := rfl
  active := rfl
  barriers := rfl
  host := rfl
  held _ := .none
  journal := rfl

/-- Whatever the settings, and whether events are kept or go nowhere: the same commands of the host,
whose code does not look at the settings or into the sink, give the same replies, the same views and
the same traces, apart from the messages of the log and from the events that are kept, and leave
stages that agree: in every sequence with its cursor and its flags, in the active list, the barriers,
the scene and the rest of the host, in what is held, and in every call of a step, every status and
every callback there has been. The host itself may look; only what it gets to see then depends on
where it looks. And so it is with any user code behind the callbacks, on the two sides different
code if it accords. -/
theorem settings_and_sink_are_diagnostics (settings settings' : Settings) (host : Host)
    (muted : Bool) (events : List Event) (log log' : Bool) (l : List Command)
    (hl : ∀ c ∈ l, c.looks = true ∨ c.Blind) :
    let s := Stage.opening settings host
    let t := Stage.opening settings' { host with muted, events }
    Matching l (s.run log l) (t.run log' l) ∧
      ∀ run run' : Runner, run.Accords run' → run.Proper → run'.Proper →
        Matching l (s.runBy run log l) (t.runBy run' log' l) :=
  have h := opening_agree settings settings' host muted events
  ⟨h.run log log' l hl, fun _ _ hrun hp hp' => h.runBy hrun hp hp' log log' l hl⟩

def emptying (depth : Nat) : Runner := fun c => do
  let _ ← perform depth (.edit .takeEvents)
  perform depth c

theorem emptying_proper (depth : Nat) : (emptying depth).Proper := by
  cases depth with
  | zero => exact fun _ s => (Session.refl s).halted
  | succ depth =>
    exact fun c s => (Session.perform (depth + 1) (.edit .takeEvents) s).trans (.perform _ c _)

theorem emptying_accords (depth : Nat) : (perform depth).Accords (emptying depth) := by
  cases depth with
  | zero => exact fun _ _ => .halt False.elim _
  | succ depth =>
    exact fun c hc s t h =>
      perform_diagnostic (depth + 1) c hc s _ (h.hosting (by rw [h.host]; rfl))

/-- A sequence that is traced and whose event is kept, and the same one that is not traced, whose
event goes nowhere and whose code empties the sink: the journals differ, and in nothing else do the
stages. -/
theorem settings_and_sink_are_diagnostics_traced :
    let o : Outline Command :=
      { name := "a", steps := [.publish (.signal "e"), .call [.ask (.isRunning "a")]] }
    let l : List Command := [.register o, .start "a", .tick 0 (some 3), .ask .settings]
    let s := Stage.opening { traceSteps := true } {}
    let t := Stage.opening {} { muted := true }
    (∀ c ∈ l, c.looks = true ∨ c.Blind) ∧ (perform 2).Accords (emptying 2) ∧
      (s.run true l).2.journal.length ≠ (t.run true l).2.journal.length ∧
      Matching l (s.run true l) (t.run true l) ∧
      Matching l (s.runBy (perform 2) true l) (t.runBy (emptying 2) true l) := by
  intro o l s t
  have hl : ∀ c ∈ l, c.looks = true ∨ c.Blind := by
    have hask : (Command.ask (.isRunning "a")).Blind := .intro rfl fun _ hd => nomatch hd
    intro c hc
    simp only [l, List.mem_cons, List.not_mem_nil, or_false] at hc
    rcases hc with rfl | rfl | rfl | rfl
    · refine .inr (.intro rfl fun d hd => ?_)
      obtain rfl := List.mem_singleton.mp hd
      exact hask
    · exact .inr (.intro rfl fun _ hd => nomatch hd)
    · exact .inr (.intro rfl fun _ hd => nomatch hd)
    · exact .inl rfl
  have hlength : (s.run true l).2.journal.length ≠ (t.run true l).2.journal.length := by
    decide +kernel
  have h := settings_and_sink_are_diagnostics { traceSteps := true } {} {} true [] true true l hl
  exact ⟨hl, emptying_accords 2, hlength, h.1,
    h.2 _ _ (emptying_accords 2) (.perform 2) (emptying_proper 2)⟩

end Sequencer
