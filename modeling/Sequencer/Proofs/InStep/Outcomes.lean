import Sequencer.Proofs.InStep.Aloof

/-!
# Outcomes of children

A list that advances past failures, and a sequence, ask of a child only whether it goes on. If
children that settle were to answer otherwise than they do, the same steps would be called with the
same effects.
-/

set_option autoImplicit false

namespace Sequencer

structure Status.Recasts (f : Status → Status) : Prop where
  isRunning : ∀ status, (f status).isRunning = status.isRunning

theorem Status.Recasts.isTerminal {f : Status → Status} (hf : Recasts f) (status : Status) :
    (f status).isTerminal = status.isTerminal := congrArg not (hf.isRunning status)

def Track.frame (run : Runner) (dt : Float32) (cue : Cue) (l : List (Step Command)) :
    Play (Track (Children l)) Status :=
  Track.tick l.length .advance fun i fresh => driveNth run dt l (cue.child i) i i fresh

def driveNthRecast (f : Status → Status) (run : Runner) (dt : Float32) :
    (l : List (Step Command)) → Cue → Nat → Nat → Bool → Play (Children l) Status
  | [], _, _, _, _ => return f .succeeded
  | s :: _, cue, index, 0, fresh =>
    Play.first <| cue.drive .flow s.label index dt fresh (s.enter run cue)
      (f <$> s.tick run dt cue) (s.exit run cue)
  | _ :: rest, cue, index, n + 1, fresh =>
    Play.second (driveNthRecast f run dt rest cue index n fresh)

def Track.frameRecast (f : Status → Status) (run : Runner) (dt : Float32) (cue : Cue)
    (l : List (Step Command)) : Play (Track (Children l)) Status :=
  Track.tick l.length .advance fun i fresh => driveNthRecast f run dt l (cue.child i) i i fresh

namespace Conductor

def driveBy (id : Nat) (q : Sequence) (part : Part) (play : Play part.step.Progress Status) :
    Act Unit := do
  .note (.turn id .driven)
  .change (·.modify id fun q => { q with entered := true })
  let status ← lend id q.current part play
  .note (.drove id status)
  if status.isTerminal then
    if (← Act.read (·.sequence id)).generation = q.generation then
      .change (·.modify id (Sequence.advanced q.current))
      .note (.moved id .settled (q.current + 1))

theorem driveStep_eq (run : Runner) (dt : Float32) (id : Nat) (q : Sequence) (part : Part) :
    driveStep run dt id q part = driveBy id q part (playPart run dt id q part) := rfl

def playPartRecast (f : Status → Status) (run : Runner) (dt : Float32) (id : Nat) (q : Sequence)
    (part : Part) : Play part.step.Progress Status :=
  let cue : Cue := { owner := q.name, site := .top id q.current }
  cue.drive .sequence part.step.label q.current dt (!q.entered) (part.step.enter run cue)
    (f <$> part.step.tick run dt cue) (part.step.exit run cue)

end Conductor

/-! Acts that answer otherwise -/

section

variable {L : Likeness} {α β γ : Type} (f : α → β)

theorem Act.map_apply (x : Act α) (s : Stage) : (f <$> x) s = ((x s).1.map f, (x s).2) := by
  rw [map_eq_pure_bind, Act.bind_apply]
  rcases x s with ⟨e | a, t⟩ <;> rfl

theorem Play.map_apply {π : Type} (x : Play π α) (y : π × Stage) :
    (f <$> x) y = ((x y).1.map f, (x y).2) := by
  rw [map_eq_pure_bind, Play.bind_apply]
  rcases x y with ⟨e | a, p, t⟩ <;> rfl

variable {f}

theorem Play.Alike.map {π : Type} {x y : Play π α} (h : Play.Alike L x y) :
    Play.Alike L (f <$> x) (f <$> y) := by
  rw [map_eq_pure_bind, map_eq_pure_bind]
  exact .bind h fun _ => .pure _

/-- The second act answers otherwise, and the rest goes by either answer alike. -/
theorem Act.Alike.bind_map {x : Act α} {y : Act β} {k : α → Act γ} {k' : β → Act γ}
    (h : Act.Alike L (f <$> x) y) (hk : ∀ a, Act.Alike L (k a) (k' (f a))) :
    Act.Alike L (x >>= k) (y >>= k') := by
  intro s t hst
  obtain ⟨hr, hrel⟩ := h s t hst
  rw [Act.map_apply] at hr hrel
  rw [Act.bind_apply, Act.bind_apply]
  rcases hx : x s with ⟨e | a, s'⟩ <;> rcases hy : y t with ⟨e' | b, t'⟩ <;>
    rw [hx, hy] at hr hrel
  · exact ⟨congrArg Except.error (Except.error.inj hr), hrel⟩
  · exact absurd hr (by simp [Except.map])
  · exact absurd hr (by simp [Except.map])
  · obtain rfl := Except.ok.inj hr
    exact hk a s' t' hrel

theorem Play.Alike.bind_map {π : Type} {x : Play π α} {y : Play π β} {k : α → Play π γ}
    {k' : β → Play π γ} (h : Play.Alike L (f <$> x) y) (hk : ∀ a, Play.Alike L (k a) (k' (f a))) :
    Play.Alike L (x >>= k) (y >>= k') := by
  intro p s t hst
  obtain ⟨hr, hp, hrel⟩ := h p s t hst
  rw [Play.map_apply] at hr hp hrel
  rw [Play.bind_apply, Play.bind_apply]
  rcases hx : x (p, s) with ⟨e | a, p₁, s'⟩ <;> rcases hy : y (p, t) with ⟨e' | b, p₂, t'⟩ <;>
    rw [hx, hy] at hr hp hrel
  · exact ⟨congrArg Except.error (Except.error.inj hr), hp, hrel⟩
  · exact absurd hr (by simp [Except.map])
  · exact absurd hr (by simp [Except.map])
  · obtain rfl := Except.ok.inj hr
    obtain rfl : p₂ = p₁ := hp
    exact hk a p₂ s' t' hrel

theorem Play.Alike.map_part {π σ : Type} {get : σ → π} {put : π → σ → σ} {x : Play π α}
    {y : Play π β} (h : Play.Alike L (f <$> x) y) :
    Play.Alike L (f <$> Play.part get put x) (Play.part get put y) := by
  have hmap : f <$> Play.part get put x = Play.part get put (f <$> x) := by
    funext z
    rw [Play.map_apply]
    simp only [Play.part, Play.map_apply]
  rw [hmap]
  exact .part h

end

section

variable {id : Nat} {name : String} {M : Milieu id name} {f : Status → Status}

theorem Act.Alike.sameCalls_note {e e' : Entry} (he : e'.call? = e.call?) :
    Act.Alike M.sameCalls (.note e) (.note e') :=
  .note fun s _ h => ⟨M.elsewhere _ _ h.1 (.note id s e), h.2.note he⟩

theorem Act.Alike.sameCalls_modify {g : Sequence → Sequence} (hg : ∀ q, (g q).name = q.name) :
    Act.Alike M.sameCalls (.change (·.modify id g)) (.change (·.modify id g)) :=
  fun s _ h => ⟨rfl, M.elsewhere _ _ h.1 (.modify s (hg _)), h.2.modify id g⟩

namespace Cue

variable {π : Type} {c : Cue} {source : Source} {label : String} {index : Nat} {dt : Float32}
  {fresh : Bool} {enter exit : Play π Unit} {tick : Play π Status}

theorem tick_recast (h : Play.Alike M.sameCalls tick tick) :
    Play.Alike M.sameCalls (f <$> c.tick dt tick) (c.tick dt (f <$> tick)) := by
  simp only [Cue.tick, map_bind, map_pure]
  refine .bind (called_alike (c := c) trivial _) fun _ => .bind_map h.map fun status => ?_
  exact .bind (.onStage (.sameCalls_note rfl)) fun _ => .pure _

/-- A step that is driven and answers otherwise. -/
theorem drive_recast (hf : Status.Recasts f) (he : Play.Alike M.sameCalls enter enter)
    (ht : Play.Alike M.sameCalls tick tick) (hx : Play.Alike M.sameCalls exit exit) :
    Play.Alike M.sameCalls (f <$> c.drive source label index dt fresh enter tick exit)
      (c.drive source label index dt fresh enter (f <$> tick) exit) := by
  have hnotice : ∀ n n', Play.Alike M.sameCalls (Play.say n : Play π Unit) (Play.say n') :=
    fun _ _ => .onStage (.sameCalls_note rfl)
  have hopen : Play.Alike M.sameCalls (c.openStep source label index fresh enter)
      (c.openStep source label index fresh enter) :=
    .ite (.bind .settings fun _ => .ite (.bind (hnotice _ _) fun _ => enter_alike trivial he)
      (enter_alike trivial he)) (.pure ())
  have hclose : ∀ status, Play.Alike M.sameCalls (c.closeStep source label index status exit)
      (c.closeStep source label index (f status) exit) := by
    intro status
    rw [closeStep, closeStep, hf.isTerminal]
    exact .ite (.bind (exit_alike trivial hx) fun _ => .bind .settings fun _ =>
      .ite (hnotice _ _) (.pure ())) (.pure ())
  simp only [drive, tickStep, map_bind, map_pure]
  exact .bind hopen fun _ => .bind_map (tick_recast ht) fun status =>
    .bind (hclose status) fun _ => .pure _

end Cue

theorem driveNth_recast (hf : Status.Recasts f) {run : Runner} {dt : Float32} :
    (l : List (Step Command)) → (cue : Cue) → (index n : Nat) → (fresh : Bool) →
    cue.owner = name → stepsAlike M.sameCalls run run name l →
    Play.Alike M.sameCalls (f <$> driveNth run dt l cue index n fresh)
      (driveNthRecast f run dt l cue index n fresh)
  | [], _, _, _, _, _, _ => .pure (f .succeeded)
  | s :: _, cue, _, 0, _, ho, h => .map_part (Cue.drive_recast hf
      (Step.enter_alike s cue trivial h.1) (Step.tick_alike s cue trivial ho h.1)
      (Step.exit_alike s cue h.1))
  | _ :: rest, cue, index, n + 1, fresh, ho, h =>
    .map_part (driveNth_recast hf rest cue index n fresh ho h.2)

/-- To a list that advances past failures all who settle are the same. -/
theorem Track.frame_recast (hf : Status.Recasts f) {run : Runner} {l : List (Step Command)}
    (h : ∀ s ∈ l, s.Aloof M run) (dt : Float32) (σ : Site) :
    Play.Alike M.sameCalls (Track.frame run dt ⟨name, σ⟩ l)
      (Track.frameRecast f run dt ⟨name, σ⟩ l) := by
  have halike : stepsAlike M.sameCalls run run name l := .of_forall fun s hs => (h s hs).sameCalls
  refine .bind .read fun t => .ite (.bind (.change _) fun _ => ?_) (.pure _)
  refine .bind_map (.map_part (driveNth_recast hf l _ _ _ _ rfl halike)) fun status => ?_
  rw [hf.isRunning]
  simp only [reduceCtorEq, decide_false, Bool.and_false]
  exact .ite (.pure _) (.bind (.change _) fun _ => .pure _)

namespace Conductor

theorem lend_recast {i : Nat} {part : Part} {x y : Play part.step.Progress Status}
    (h : Play.Alike M.sameCalls (f <$> x) y) :
    Act.Alike M.sameCalls (f <$> lend id i part x) (lend id i part y) := by
  intro s t hst
  have hlent : M.sameCalls.related (s.modify id fun q => { q with ticking := true })
      (t.modify id fun q => { q with ticking := true }) :=
    ⟨M.elsewhere _ _ hst.1 (.modify s rfl), hst.2.modify id _⟩
  obtain ⟨hr, hp, hrel⟩ := h part.progress _ _ hlent
  rw [Act.map_apply]
  rw [Play.map_apply] at hr hp hrel
  refine ⟨hr, ?_⟩
  simp only [lend, hp]
  exact ⟨M.elsewhere _ _ hrel.1 (.modify _ rfl), hrel.2.modify id _⟩

/-- To a sequence all who settle are the same. -/
theorem driveStep_recast (hf : Status.Recasts f) {run : Runner} {q : Sequence} {part : Part}
    (hname : q.name = name) (h : part.step.Aloof M run) (dt : Float32) :
    Act.Alike M.sameCalls (driveStep run dt id q part)
      (driveBy id q part (playPartRecast f run dt id q part)) := by
  rw [driveStep_eq]
  have halike := h.sameCalls
  have hplay : Play.Alike M.sameCalls (f <$> playPart run dt id q part)
      (playPartRecast f run dt id q part) := 
    Cue.drive_recast hf (Step.enter_alike part.step ⟨q.name, .top id q.current⟩ trivial halike)
      (Step.tick_alike part.step ⟨q.name, .top id q.current⟩ trivial hname halike)
      (Step.exit_alike part.step ⟨q.name, .top id q.current⟩ halike)
  refine .bind (.sameCalls_note rfl) fun _ => .bind (.sameCalls_modify fun _ => rfl) fun _ =>
    .bind_map (lend_recast hplay) fun status => .bind (.sameCalls_note rfl) fun _ => ?_
  rw [hf.isTerminal]
  refine .ite (.bind (.read fun _ _ h => h.2.sequence id) fun _ => .ite ?_ (.pure ())) (.pure ())
  exact .bind (.sameCalls_modify fun _ => rfl) fun _ => .sameCalls_note rfl

end Conductor

end

end Sequencer
