import Sequencer.Proofs.Ledger.Session
import Sequencer.Proofs.Pause.PassedBy

/-!
# Self-contained steps

A step is self-contained if nothing but its own progress and the time that passes decides what it
answers and what becomes of it: called for the same sequence on whatever two stages, it does the
same. The waits are, and so is every composite of steps that are, whatever limits its time.
-/

set_option autoImplicit false

namespace Sequencer

def Stage.told (id : Nat) (s : Stage) : List Entry := s.journal.filter (·.tellsOf id)

structure Stage.Twins (id : Nat) (s t : Stage) : Prop where
  left : id < s.sequences.length
  right : id < t.sequences.length
  core : (t.sequence id).core = (s.sequence id).core

structure Alongside (id : Nat) (s s' t t' : Stage) : Prop where
  twins : s'.Twins id t'
  told : ∃ l, s'.told id = l ++ s.told id ∧ t'.told id = l ++ t.told id

/-- The act does the same to the sequence wherever it is carried out, and has the same result. -/
def Act.SelfContained {α : Type} (id : Nat) (x : Act α) : Prop :=
  ∀ s t : Stage, s.Twins id t → (x t).1 = (x s).1 ∧ Alongside id s (x s).2 t (x t).2

def Play.SelfContained {π α : Type} (id : Nat) (x : Play π α) : Prop :=
  ∀ (p : π) (s t : Stage), s.Twins id t → (x (p, t)).1 = (x (p, s)).1 ∧
    (x (p, t)).2.1 = (x (p, s)).2.1 ∧ Alongside id s (x (p, s)).2.2 t (x (p, t)).2.2

structure Step.SelfContained (run : Runner) (id : Nat) (x : Step Command) : Prop where
  enter : ∀ cue, (x.enter run cue).SelfContained id
  tick : ∀ dt cue, (x.tick run dt cue).SelfContained id
  exit : ∀ cue, (x.exit run cue).SelfContained id

def Sequence.SelfContained (run : Runner) (id : Nat) (q : Sequence) : Prop :=
  ∀ x ∈ q.steps, x.SelfContained run id

section

variable {id : Nat} {s s' s'' t t' t'' u : Stage}

theorem Stage.told_of_append {l : List Entry} (h : t.journal = l ++ s.journal) :
    t.told id = l.filter (·.tellsOf id) ++ s.told id := by
  rw [told, told, h, List.filter_append]

theorem Stage.Leaves.told_eq (h : Stage.Leaves id s t) : t.told id = s.told id := by
  obtain ⟨l, hl, hP⟩ := h.told
  rw [Stage.told_of_append hl, List.filter_eq_nil_iff.mpr fun e he => by simp [hP e he],
    List.nil_append]

namespace Stage.Twins

theorem leaves (h : s.Twins id t) (hs : Stage.Leaves id s s') (ht : Stage.Leaves id t t') :
    s'.Twins id t' :=
  ⟨Nat.lt_of_lt_of_le h.left hs.length, Nat.lt_of_lt_of_le h.right ht.length,
    ht.core.trans (h.core.trans hs.core.symm)⟩

theorem modify (h : s.Twins id t) {f : Sequence → Sequence} (hf : ∀ q, (f q).core = f q.core) :
    (s.modify id f).Twins id (t.modify id f) := by
  refine ⟨by simpa using h.left, by simpa using h.right, ?_⟩
  rw [sequence_modify_self _ _ h.left, sequence_modify_self _ _ h.right, hf, hf, h.core]

/-- What is read off the core is the same. -/
theorem field (h : s.Twins id t) {α : Type} (g : Sequence → α) (hg : ∀ q, g q.core = g q) :
    g (t.sequence id) = g (s.sequence id) := by
  rw [← hg, h.core, hg]

/-- Their turns go alike, unless one of them is paused. -/
theorem turnOf (h : s.Twins id t) (hs : (s.sequence id).paused = false)
    (ht : (t.sequence id).paused = false) : t.turnOf id = s.turnOf id := by
  simp only [Stage.turnOf, hs, ht, h.field Sequence.running fun _ => rfl,
    h.field Sequence.stepCount fun _ => rfl, h.field Sequence.current fun _ => rfl,
    h.field Sequence.ticking fun _ => rfl]

end Stage.Twins

namespace Alongside

theorem leaves (h : s.Twins id t) (hs : Stage.Leaves id s s') (ht : Stage.Leaves id t t') :
    Alongside id s s' t t' :=
  ⟨h.leaves hs ht, [], hs.told_eq, ht.told_eq⟩

theorem refl (h : s.Twins id t) : Alongside id s s t t := leaves h (.refl id s) (.refl id t)

theorem trans (h : Alongside id s s' t t') (h' : Alongside id s' s'' t' t'') :
    Alongside id s s'' t t'' := by
  obtain ⟨l, hs, ht⟩ := h.told
  obtain ⟨l', hs', ht'⟩ := h'.told
  exact ⟨h'.twins, l' ++ l, by rw [hs', hs, List.append_assoc],
    by rw [ht', ht, List.append_assoc]⟩

theorem note (h : s.Twins id t) (e : Entry) : Alongside id s (s.note e) t (t.note e) :=
  ⟨⟨h.left, h.right, h.core⟩, [e].filter (·.tellsOf id), Stage.told_of_append (l := [e]) rfl,
    Stage.told_of_append (l := [e]) rfl⟩

theorem modify (h : s.Twins id t) {f : Sequence → Sequence} (hf : ∀ q, (f q).core = f q.core) :
    Alongside id s (s.modify id f) t (t.modify id f) := ⟨h.modify hf, [], rfl, rfl⟩

end Alongside

end

namespace Act.SelfContained

variable {α : Type} {id : Nat}

/-- An act that only makes remarks, and whose result is the same everywhere. -/
theorem of_remarks {x : Act α} (h : x.Remarks) (hr : ∀ s t, (x t).1 = (x s).1) :
    x.SelfContained id :=
  fun s t hst => ⟨hr s t, .leaves hst (.aside (h s)) (.aside (h t))⟩

theorem bind {β : Type} {x : Act α} {f : α → Act β} (h : x.SelfContained id)
    (hf : ∀ a, (f a).SelfContained id) : (x >>= f).SelfContained id := by
  intro s t hst
  obtain ⟨hr, ha⟩ := h s t hst
  rw [Act.bind_apply, Act.bind_apply]
  rcases hx : x s with ⟨e | a, s'⟩ <;> rcases hy : x t with ⟨e' | b, t'⟩ <;>
    rw [hx, hy] at hr ha
  · exact ⟨congrArg Except.error (Except.error.inj hr), ha⟩
  · exact absurd hr (by simp)
  · exact absurd hr (by simp)
  · obtain rfl := Except.ok.inj hr
    obtain ⟨hr', ha'⟩ := hf _ s' t' ha.twins
    exact ⟨hr', ha.trans ha'⟩

end Act.SelfContained

namespace Play.SelfContained

variable {π σ α β : Type} {id : Nat}

theorem pure (a : α) : (pure a : Play π α).SelfContained id := fun _ _ _ h => ⟨rfl, rfl, .refl h⟩

theorem read : (Play.read : Play π π).SelfContained id := fun _ _ _ h => ⟨rfl, rfl, .refl h⟩

theorem write (p : π) : (Play.write p).SelfContained id := fun _ _ _ h => ⟨rfl, rfl, .refl h⟩

theorem change (f : π → π) : (Play.change f).SelfContained id :=
  fun _ _ _ h => ⟨rfl, rfl, .refl h⟩

theorem onStage {x : Act α} (h : x.SelfContained id) :
    (Play.onStage x : Play π α).SelfContained id := by
  intro p s t hst
  obtain ⟨hr, ha⟩ := h s t hst
  exact ⟨hr, rfl, ha⟩

theorem note (e : Entry) : (Play.note e : Play π Unit).SelfContained id :=
  fun _ _ _ h => ⟨rfl, rfl, .note h e⟩

theorem say (n : Notice) : (Play.say n : Play π Unit).SelfContained id := note _

theorem bind {x : Play π α} {f : α → Play π β} (h : x.SelfContained id)
    (hf : ∀ a, (f a).SelfContained id) : (x >>= f).SelfContained id := by
  intro p s t hst
  obtain ⟨hr, hp, ha⟩ := h p s t hst
  rw [Play.bind_apply, Play.bind_apply]
  rcases hx : x (p, s) with ⟨e | a, p₁, s'⟩ <;> rcases hy : x (p, t) with ⟨e' | b, p₂, t'⟩ <;>
    rw [hx, hy] at hr hp ha
  · exact ⟨congrArg Except.error (Except.error.inj hr), hp, ha⟩
  · exact absurd hr (by simp)
  · exact absurd hr (by simp)
  · obtain rfl := Except.ok.inj hr
    obtain rfl : p₂ = p₁ := hp
    obtain ⟨hr', hp', ha'⟩ := hf _ p₂ s' t' ha.twins
    exact ⟨hr', hp', ha.trans ha'⟩

theorem ite {c : Prop} [Decidable c] {x y : Play π α} (hx : x.SelfContained id)
    (hy : y.SelfContained id) : (if c then x else y).SelfContained id := by
  split
  · exact hx
  · exact hy

theorem part {get : σ → π} {put : π → σ → σ} {x : Play π α} (h : x.SelfContained id) :
    (Play.part get put x).SelfContained id := by
  intro a s t hst
  obtain ⟨hr, hp, ha⟩ := h (get a) s t hst
  exact ⟨hr, congrArg (put · a) hp, ha⟩

theorem first {x : Play π α} (h : x.SelfContained id) :
    (Play.first x : Play (π × σ) α).SelfContained id := part h

theorem second {x : Play σ α} (h : x.SelfContained id) :
    (Play.second x : Play (π × σ) α).SelfContained id := part h

/-- Whether the host wants to read of it makes no difference. -/
theorem traced {n : Notice} {x : Play π α} (h : x.SelfContained id) :
    (Play.settings >>= fun st =>
      if st.traceSteps then Play.say n >>= fun _ => x else x : Play π α).SelfContained id := by
  have hsays : ∀ s : Stage, ∃ s', Stage.Leaves id s s' ∧ ∀ p : π, (Play.settings >>= fun st =>
      if st.traceSteps then Play.say n >>= fun _ => x else x : Play π α) (p, s) = x (p, s') := by
    intro s
    by_cases hs : s.settings.traceSteps = true
    · refine ⟨s.note (.notice n), .note s rfl, fun p => ?_⟩
      show (if s.settings.traceSteps then Play.say n >>= fun _ => x else x : Play π α) (p, s) = _
      rw [if_pos hs]
      rfl
    · refine ⟨s, .refl id s, fun p => ?_⟩
      show (if s.settings.traceSteps then Play.say n >>= fun _ => x else x : Play π α) (p, s) = _
      rw [if_neg hs]
  intro p s t hst
  obtain ⟨s', hs, hxs⟩ := hsays s
  obtain ⟨t', ht, hxt⟩ := hsays t
  rw [hxs p, hxt p]
  obtain ⟨hr, hp, ha⟩ := h p s' t' (hst.leaves hs ht)
  exact ⟨hr, hp, (Alongside.leaves hst hs ht).trans ha⟩

end Play.SelfContained

def Condition.SelfContained (c : Condition) : Prop :=
  ∀ s t owner polls, c.test.eval t owner polls = c.test.eval s owner polls

structure Question.SelfContained (run : Runner) (id : Nat) (q : Question Command) : Prop where
  code : (performAll run q.code).SelfContained id
  answers : q.toCondition.SelfContained

section

variable {π ρ : Type} {id : Nat} {run : Runner}

theorem ask_selfContained {c : Condition} (h : c.SelfContained) (asker : Asker) (owner : String)
    (polls : Nat) : (ask asker owner polls c).SelfContained id := by
  refine .of_remarks (ask_remarks asker owner polls c) fun s t => ?_
  simp only [ask, Act.bind_apply, Act.read, h s t]
  rcases c.test.eval s owner polls with e | answer <;> rfl

theorem inquire_selfContained {q : Question Command} (h : q.SelfContained run id) (asker : Asker)
    (owner : String) (polls : Nat) : (inquire run asker owner polls q).SelfContained id :=
  .bind h.code fun _ => ask_selfContained h.answers asker owner polls

namespace Simple

theorem wait_selfContained (seconds dt : Float32) : (wait seconds dt).SelfContained id :=
  .bind .read fun _ => .bind (.write _) fun _ => .pure _

theorem frames_selfContained (count : UInt32) : (frames count).SelfContained id :=
  .bind .read fun _ => .bind (.write _) fun _ => .pure _

theorem publish_selfContained (e : Event) : (publish e).SelfContained id := by
  refine .of_remarks (publish_remarks e) fun s t => ?_
  have hok : ∀ u, (publish e u).1 = .ok () := by
    intro u
    simp only [publish, Act.bind_apply, Act.read]
    cases u.host.muted <;> rfl
  rw [hok, hok]

theorem scriptedTick_selfContained (probe : Option String) (owner : String)
    (script : List Status) (dt : Float32) :
    (scriptedTick probe owner script dt).SelfContained id := by
  refine .bind .read fun used => .bind (.write _) fun _ => ?_
  cases probe with
  | none => exact .pure _
  | some probe => exact .bind (.note _) fun _ => .pure _

theorem await_selfContained {q : Question Command} (h : q.SelfContained run id) (cue : Cue)
    (limit : Option Float32) (policy : Expiry) (dt : Float32) :
    (await run cue q limit policy dt).SelfContained id := by
  refine .bind (.change _) fun _ => .bind .read fun _ =>
    .bind (.onStage (inquire_selfContained h _ _ _)) fun _ => .ite (.pure _) ?_
  refine .bind .read fun _ => .bind (.change _) fun _ => ?_
  cases limit with
  | none => exact .pure _
  | some bound => exact .ite (.bind (.say _) fun _ => .pure _) (.pure _)

end Simple

theorem Cue.enter_selfContained {enter : Play π Unit} (c : Cue) (h : enter.SelfContained id) :
    (c.enter enter).SelfContained id := .bind (.note _) fun _ => .bind h fun _ => .note _

theorem Cue.tick_selfContained {tick : Play π Status} (c : Cue) (dt : Float32)
    (h : tick.SelfContained id) : (c.tick dt tick).SelfContained id :=
  .bind (.note _) fun _ => .bind h fun _ => .bind (.note _) fun _ => .pure _

theorem Cue.exit_selfContained {exit : Play π Unit} (c : Cue) (h : exit.SelfContained id) :
    (c.exit exit).SelfContained id := .bind (.note _) fun _ => .bind h fun _ => .note _

theorem Cue.drive_selfContained (c : Cue) (source : Source) (label : String) (index : Nat)
    (dt : Float32) (fresh : Bool) {enter exit : Play π Unit} {tick : Play π Status}
    (he : enter.SelfContained id) (ht : tick.SelfContained id) (hx : exit.SelfContained id) :
    (c.drive source label index dt fresh enter tick exit).SelfContained id := by
  have hopen : (c.openStep source label index fresh enter).SelfContained id :=
    .ite (.traced (c.enter_selfContained he)) (.pure ())
  have hclose : ∀ status, (c.closeStep source label index status exit).SelfContained id :=
    fun status => .ite (.bind (c.exit_selfContained hx) fun _ => .traced (.pure ())) (.pure ())
  exact .bind hopen fun _ => .bind (c.tick_selfContained dt ht) fun status =>
    .bind (hclose status) fun _ => .pure status

theorem Track.tick_selfContained {length : Nat} {onFailure : OnFailure}
    {drive : Nat → Bool → Play π Status} (h : ∀ i fresh, (drive i fresh).SelfContained id) :
    (Track.tick length onFailure drive).SelfContained id := by
  refine .bind .read fun t => .ite (.bind (.change _) fun _ => .bind (.part (h _ _)) fun status =>
    .ite (.pure _) ?_) (.pure _)
  exact .bind (.change _) fun _ => .ite (.pure _) (.pure _)

theorem Track.cancel_selfContained {length : Nat} {exit : Nat → Play π Unit}
    (h : ∀ i, (exit i).SelfContained id) : (Track.cancel length exit).SelfContained id :=
  .bind .read fun _ => .ite (.bind (.part (h _)) fun _ => .change _) (.change _)

theorem ChoiceProgress.enter_selfContained {q : Question Command} (h : q.SelfContained run id)
    (cue : Cue) : (ChoiceProgress.enter (π := π) (ρ := ρ) run cue q).SelfContained id :=
  .bind (.change _) fun _ => .bind .read fun _ =>
    .bind (.onStage (inquire_selfContained h _ _ _)) fun _ => .ite (.change _) (.change _)

theorem ChoiceProgress.tick_selfContained {yes : Play (Track π) Status}
    {no : Play (Track ρ) Status} (hy : yes.SelfContained id) (hn : no.SelfContained id) :
    (ChoiceProgress.tick yes no).SelfContained id :=
  .bind .read fun _ => .ite (.part hn) (.part hy)

theorem BoundedProgress.tick_selfContained (owner : String) (seconds : Float32) (policy : Expiry)
    (dt : Float32) {body : Play (Track π) Status} {cancel : Play (Track π) Unit}
    (hb : body.SelfContained id) (hc : cancel.SelfContained id) :
    (BoundedProgress.tick owner seconds policy dt body cancel).SelfContained id :=
  .bind (.change _) fun _ => .bind .read fun _ => .ite
    (.bind (.say _) fun _ => .bind (.part hc) fun _ => .pure _) (.part hb)

theorem RetryProgress.tick_selfContained (owner : String) (attempts : UInt32)
    {body : Play (Track π) Status} (h : body.SelfContained id) :
    (RetryProgress.tick owner attempts body).SelfContained id := by
  refine .bind (.part h) fun status => ?_
  cases status with
  | failed =>
    exact .bind (.change _) fun _ => .bind .read fun _ => .ite
      (.bind (.say _) fun _ => .pure _) (.bind (.change _) fun _ => .pure _)
  | running => exact .pure _
  | succeeded => exact .pure _

theorem Quorum.conclude_selfContained (mode : Quorum) (owner : String) (settled : List Status)
    (pending : Nat) : (mode.conclude owner settled pending : Play π Status).SelfContained id := by
  unfold Quorum.conclude
  split
  · exact .ite (.bind (.say _) fun _ => .pure _) (.pure _)
  · exact .pure _

theorem Lane.enter_selfContained (cue : Cue) {body : Play π Unit} (h : body.SelfContained id) :
    (Lane.enter cue body).SelfContained id :=
  .bind (.change _) fun _ => .part (cue.enter_selfContained h)

theorem Lane.tick_selfContained (cue : Cue) (dt : Float32) {body : Play π Status}
    {exit : Play π Unit} (h : body.SelfContained id) (hx : exit.SelfContained id) :
    (Lane.tick cue dt body exit).SelfContained id :=
  .bind .read fun _ => .ite (.pure _) (.bind (.part (cue.tick_selfContained dt h)) fun _ =>
    .ite (.pure _) (.bind (.part (cue.exit_selfContained hx)) fun _ =>
      .bind (.change _) fun _ => .pure _))

end

section

variable (run : Runner) (id : Nat)

mutual

def Step.Secluded : Step Command → Prop
  | .wait _ => True
  | .frames _ => True
  | .publish _ => True
  | .probe _ _ => True
  | .call commands => (performAll run commands).SelfContained id
  | .custom onEnter onTick onExit _ => (performAll run onEnter).SelfContained id ∧
      (performAll run onTick).SelfContained id ∧ (performAll run onExit).SelfContained id
  | .await question _ _ => question.SelfContained run id
  | .choose question yes no =>
    question.SelfContained run id ∧ stepsSecluded yes ∧ stepsSecluded no
  | .bounded _ _ steps => stepsSecluded steps
  | .retry _ steps => stepsSecluded steps
  | .group steps => stepsSecluded steps
  | .parallel _ steps => stepsSecluded steps
  | .invoke _ _ => False
  | .component _ _ _ => False
  | .startSequence _ => False
  | .stopSequence _ => False
  | .tween _ => False
  | .barrier _ _ => False

def stepsSecluded : List (Step Command) → Prop
  | [] => True
  | x :: rest => x.Secluded ∧ stepsSecluded rest

end

variable {run id}

theorem Step.Secluded.exit {x : Step Command} (h : x.Secluded run id) (cue : Cue) :
    (x.exit run cue).SelfContained id := by
  cases x with
  | probe probe script => exact .note _
  | custom onEnter onTick onExit script => exact .onStage h.2.2
  | _ => exact .pure ()

mutual

theorem Step.Secluded.enter : (x : Step Command) → x.Secluded run id → (cue : Cue) →
    (x.enter run cue).SelfContained id
  | .wait _, _, _ => .write _
  | .frames _, _, _ => .write _
  | .await _ _ _, _, _ => .change _
  | .probe _ _, _, _ => .note _
  | .choose _ _ _, h, cue => ChoiceProgress.enter_selfContained h.1 cue
  | .bounded _ _ _, _, _ => .change _
  | .retry _ _, _, _ => .change _
  | .group _, _, _ => .change _
  | .parallel _ steps, h, cue => stepsSecluded.enterLanes steps h cue 0
  | .custom _ _ _ _, h, _ => .onStage h.1
  | .publish _, _, _ => .pure ()
  | .call _, _, _ => .pure ()

theorem stepsSecluded.enterLanes : (l : List (Step Command)) → stepsSecluded run id l →
    (cue : Cue) → (index : Nat) → (Sequencer.enterLanes run l cue index).SelfContained id
  | [], _, _, _ => .pure ()
  | x :: rest, h, cue, index =>
    .bind (.first (Lane.enter_selfContained _ (Step.Secluded.enter x h.1 (cue.child index))))
      fun _ => .second (stepsSecluded.enterLanes rest h.2 cue (index + 1))

end

theorem stepsSecluded.exitNth : (l : List (Step Command)) → stepsSecluded run id l →
    (cue : Cue) → (n : Nat) → (Sequencer.exitNth run l cue n).SelfContained id
  | [], _, _, _ => .pure ()
  | _ :: _, h, cue, 0 => .first (cue.exit_selfContained (h.1.exit cue))
  | _ :: rest, h, cue, n + 1 => .second (stepsSecluded.exitNth rest h.2 cue n)

variable {dt : Float32}

mutual

theorem Step.Secluded.tick : (x : Step Command) → x.Secluded run id → (cue : Cue) →
    (x.tick run dt cue).SelfContained id
  | .wait seconds, _, _ => Simple.wait_selfContained seconds dt
  | .frames count, _, _ => Simple.frames_selfContained count
  | .publish event, _, _ =>
    .bind (.onStage (Simple.publish_selfContained event)) fun _ => .pure _
  | .call _, h, _ => .bind (.onStage h) fun _ => .pure _
  | .await _ limit policy, h, cue => Simple.await_selfContained h cue limit policy dt
  | .probe probe script, _, cue =>
    Simple.scriptedTick_selfContained (some probe) cue.owner script dt
  | .custom _ _ _ script, h, cue => .bind (.onStage h.2.1) fun _ =>
      Simple.scriptedTick_selfContained none cue.owner script dt
  | .choose _ yes no, h, cue => by
    rw [Step.tick]
    exact ChoiceProgress.tick_selfContained
      (Track.tick_selfContained fun i => stepsSecluded.driveNth yes h.2.1 (cue.child i) i i)
      (Track.tick_selfContained fun i => stepsSecluded.driveNth no h.2.2 (cue.otherwise i) i i)
  | .bounded seconds policy steps, h, cue => by
    rw [Step.tick]
    exact BoundedProgress.tick_selfContained cue.owner seconds policy dt
      (Track.tick_selfContained fun i => stepsSecluded.driveNth steps h (cue.child i) i i)
      (Track.cancel_selfContained fun i => stepsSecluded.exitNth steps h (cue.child i) i)
  | .retry attempts steps, h, cue => by
    rw [Step.tick]
    exact RetryProgress.tick_selfContained cue.owner attempts
      (Track.tick_selfContained fun i => stepsSecluded.driveNth steps h (cue.child i) i i)
  | .group steps, h, cue => by
    rw [Step.tick]
    exact Track.tick_selfContained fun i => stepsSecluded.driveNth steps h (cue.child i) i i
  | .parallel mode steps, h, cue =>
    .bind (stepsSecluded.tickLanes steps h cue 0) fun _ =>
      .bind .read fun _ => mode.conclude_selfContained cue.owner _ _

theorem stepsSecluded.driveNth : (l : List (Step Command)) → stepsSecluded run id l →
    (cue : Cue) → (index n : Nat) → (fresh : Bool) →
    (Sequencer.driveNth run dt l cue index n fresh).SelfContained id
  | [], _, _, _, _, _ => .pure _
  | x :: _, h, cue, index, 0, fresh => .first (cue.drive_selfContained .flow x.label index dt fresh
      (Step.Secluded.enter x h.1 cue) (Step.Secluded.tick x h.1 cue) (h.1.exit cue))
  | _ :: rest, h, cue, index, n + 1, fresh =>
    .second (stepsSecluded.driveNth rest h.2 cue index n fresh)

theorem stepsSecluded.tickLanes : (l : List (Step Command)) → stepsSecluded run id l →
    (cue : Cue) → (index : Nat) → (Sequencer.tickLanes run dt l cue index).SelfContained id
  | [], _, _, _ => .pure _
  | x :: rest, h, cue, index =>
    .bind (.first (Lane.tick_selfContained _ dt (Step.Secluded.tick x h.1 (cue.child index))
      (h.1.exit (cue.child index)))) fun _ =>
        .bind (.second (stepsSecluded.tickLanes rest h.2 cue (index + 1))) fun _ => .pure _

end

/-- A tree in which no step looks at the world depends on nothing but itself. -/
theorem Step.Secluded.selfContained {x : Step Command} (h : x.Secluded run id) :
    x.SelfContained run id :=
  ⟨h.enter, fun _ => h.tick, h.exit⟩

end

/-! The turn of a sequence -/

namespace Alongside

variable {id : Nat} {s t : Stage}

theorem lending (h : s.Twins id t) : Alongside id s (s.lending id) t (t.lending id) := by
  have hn := note h (.turn id .driven)
  have he := hn.trans (modify hn.twins (f := fun q => { q with entered := true }) fun _ => rfl)
  exact he.trans (modify he.twins (f := fun q => { q with ticking := true }) fun _ => rfl)

theorem afterPlay (h : s.Twins id t) {q q' : Sequence} (hc : q'.current = q.current)
    (hg : q'.generation = q.generation) (part : Part) (r : Except Halt Status) :
    Alongside id s (s.afterPlay id q part r) t (t.afterPlay id q' part r) := by
  have hr : Alongside id s (s.returning id q.current part) t (t.returning id q'.current part) := by
    rw [hc]
    apply modify h
    exact fun _ => rfl
  cases r with
  | error e => exact hr
  | ok status =>
    have hd := hr.trans (note hr.twins (.drove id status))
    have hsame := hd.twins.field Sequence.generation fun _ => rfl
    simp only [Stage.afterPlay, Stage.advancing]
    rw [hsame, hc, hg]
    rw [hc] at hd
    split
    · have hm := hd.trans (modify hd.twins (f := Sequence.advanced q.current) fun _ => rfl)
      exact hm.trans (note hm.twins _)
    · exact hd

theorem sweep (h : s.Twins id t) : Alongside id s (s.sweep id) t (t.sweep id) :=
  leaves h (.sweep s id) (.sweep t id)

end Alongside

namespace Conductor

variable {run : Runner} {id : Nat} {s t : Stage}

theorem playPart_selfContained {part : Part} (h : part.step.SelfContained run id) (dt : Float32)
    (q : Sequence) : (playPart run dt id q part).SelfContained id :=
  Cue.drive_selfContained _ .sequence part.step.label q.current dt (!q.entered) (h.enter _)
    (h.tick dt _) (h.exit _)

theorem playPart_core (dt : Float32) {q q' : Sequence} (h : q'.core = q.core) (part : Part) :
    playPart run dt id q' part = playPart run dt id q part := by
  have hsame : ∀ q : Sequence, playPart run dt id q.core part = playPart run dt id q part :=
    fun _ => rfl
  rw [← hsame, h, hsame]

theorem driveStep_alongside (h : s.Twins id t) {part : Part}
    (hx : part.step.SelfContained run id) (dt : Float32) :
    (driveStep run dt id (t.sequence id) part t).1 = (driveStep run dt id (s.sequence id) part s).1 ∧
      Alongside id s (driveStep run dt id (s.sequence id) part s).2
        t (driveStep run dt id (t.sequence id) part t).2 := by
  have hl := Alongside.lending h
  obtain ⟨hr, hp, ha⟩ := playPart_selfContained hx dt (s.sequence id) part.progress _ _ hl.twins
  rcases hs : playPart run dt id (s.sequence id) part (part.progress, s.lending id) with ⟨r, p, s'⟩
  rcases ht : playPart run dt id (s.sequence id) part (part.progress, t.lending id)
    with ⟨r', p', t'⟩
  rw [hs, ht] at hr hp ha
  obtain rfl : r' = r := hr
  obtain rfl : p' = p := hp
  rw [← playPart_core dt h.core] at ht
  rw [driveStep_apply hs, driveStep_apply ht]
  exact ⟨rfl, (hl.trans ha).trans (.afterPlay ha.twins (h.field Sequence.current fun _ => rfl)
    (h.field Sequence.generation fun _ => rfl) _ _)⟩

/-- A turn that does not complete the sequence, and that finds it paused on neither stage, goes the
same on both. -/
theorem takeTurn_alongside (h : s.Twins id t) (hx : (s.sequence id).SelfContained run id)
    (hs : (s.sequence id).paused = false) (ht : (t.sequence id).paused = false)
    (hc : s.turnOf id ≠ .completed) (dt : Float32) :
    (takeTurn run dt id t).1 = (takeTurn run dt id s).1 ∧
      Alongside id s (takeTurn run dt id s).2 t (takeTurn run dt id t).2 := by
  suffices hturn : (turn run dt id t).1 = (turn run dt id s).1 ∧
      Alongside id s (turn run dt id s).2 t (turn run dt id t).2 by
    rw [takeTurn_unpaused hs, takeTurn_unpaused ht]
    obtain ⟨hr, ha⟩ := hturn
    rcases hu : turn run dt id s with ⟨e | a, s'⟩ <;>
      rcases hv : turn run dt id t with ⟨e' | a', t'⟩ <;> rw [hu, hv] at hr ha
    · exact ⟨hr, ha⟩
    · exact absurd hr (by simp)
    · exact absurd hr (by simp)
    · exact ⟨rfl, ha.trans (.sweep ha.twins)⟩
  have hrt := h.field Sequence.running fun _ => rfl
  have hct := h.field Sequence.current fun _ => rfl
  have hnt := h.field Sequence.stepCount fun _ => rfl
  by_cases hr : (s.sequence id).running = true
  · have hcur : (s.sequence id).current < (s.sequence id).stepCount :=
      Nat.lt_of_not_le fun hle => hc (s.turnOf_completed ⟨hs, hr⟩ hle)
    by_cases hb : (s.sequence id).ticking = true
    · rw [turn_busy hr hcur hb, turn_busy (hrt.trans hr) (by rw [hct, hnt]; exact hcur)
        ((h.field Sequence.ticking fun _ => rfl).trans hb), h.field Sequence.name fun _ => rfl]
      have hn := Alongside.note h (.turn id .busy)
      exact ⟨rfl, hn.trans (.note hn.twins _)⟩
    · have hb : (s.sequence id).ticking = false := by simpa using hb
      have hpart := List.getElem?_eq_getElem (l := (s.sequence id).parts) hcur
      have hpart' : (t.sequence id).parts[(t.sequence id).current]? =
          some (s.sequence id).parts[(s.sequence id).current] := by
        rw [h.field Sequence.parts fun _ => rfl, hct]
        exact hpart
      rw [turn_driven hr hpart hb, turn_driven (hrt.trans hr) hpart'
        ((h.field Sequence.ticking fun _ => rfl).trans hb)]
      exact driveStep_alongside h (hx _ (List.mem_map_of_mem (List.getElem_mem hcur))) dt
  · have hr : (s.sequence id).running = false := by simpa using hr
    rw [turn_idle hr, turn_idle (hrt.trans hr)]
    exact ⟨rfl, .note h _⟩

end Conductor

end Sequencer
