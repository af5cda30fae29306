import Sequencer.Proofs.Accord

/-!
# Steps on stages in accord

What a step without children asks of the world, and what the questions in the tree do and ask,
decides whether the step accords: if each leaf accords and each question gets the same answers, then
so does the whole tree, called for a sequence and for its mate.
-/

set_option autoImplicit false

namespace Sequencer

section

variable (leaf : Step Command → Prop) (asked : Question Command → Prop)

mutual

def Step.Each : Step Command → Prop
  | .choose question yes no => asked question ∧ stepsEach yes ∧ stepsEach no
  | .await question _ _ => asked question
  | .bounded _ _ steps => stepsEach steps
  | .retry _ steps => stepsEach steps
  | .group steps => stepsEach steps
  | .parallel _ steps => stepsEach steps
  | .wait seconds => leaf (.wait seconds)
  | .frames count => leaf (.frames count)
  | .publish event => leaf (.publish event)
  | .invoke system command => leaf (.invoke system command)
  | .component entity component enabled => leaf (.component entity component enabled)
  | .call commands => leaf (.call commands)
  | .startSequence target => leaf (.startSequence target)
  | .stopSequence target => leaf (.stopSequence target)
  | .tween tween => leaf (.tween tween)
  | .barrier barrier expected => leaf (.barrier barrier expected)
  | .probe probe script => leaf (.probe probe script)
  | .custom onEnter onTick onExit script => leaf (.custom onEnter onTick onExit script)

def stepsEach : List (Step Command) → Prop
  | [] => True
  | x :: rest => x.Each ∧ stepsEach rest

end

variable {leaf asked} {leaf' : Step Command → Prop}
  {asked' : Question Command → Prop}

mutual

theorem Step.Each.mono (hl : ∀ x, leaf x → leaf' x) (ha : ∀ q, asked q → asked' q) :
    (x : Step Command) → x.Each leaf asked → x.Each leaf' asked'
  | .choose _ yes no, h => ⟨ha _ h.1, stepsEach.mono hl ha yes h.2.1, stepsEach.mono hl ha no h.2.2⟩
  | .await _ _ _, h => ha _ h
  | .bounded _ _ steps, h => stepsEach.mono hl ha steps h
  | .retry _ steps, h => stepsEach.mono hl ha steps h
  | .group steps, h => stepsEach.mono hl ha steps h
  | .parallel _ steps, h => stepsEach.mono hl ha steps h
  | .wait _, h => hl _ h
  | .frames _, h => hl _ h
  | .publish _, h => hl _ h
  | .invoke _ _, h => hl _ h
  | .component _ _ _, h => hl _ h
  | .call _, h => hl _ h
  | .startSequence _, h => hl _ h
  | .stopSequence _, h => hl _ h
  | .tween _, h => hl _ h
  | .barrier _ _, h => hl _ h
  | .probe _ _, h => hl _ h
  | .custom _ _ _ _, h => hl _ h

theorem stepsEach.mono (hl : ∀ x, leaf x → leaf' x) (ha : ∀ q, asked q → asked' q) :
    (l : List (Step Command)) → stepsEach leaf asked l → stepsEach leaf' asked' l
  | [], _ => trivial
  | x :: rest, h => ⟨Step.Each.mono hl ha x h.1, stepsEach.mono hl ha rest h.2⟩

end

end

def Accord.Allows (A : Accord) (run run' : Runner) (owner : String) : Step Command → Prop
  | .invoke system command => Act.Accords A (Simple.invokeSystem system command)
    (Simple.invokeSystem system command)
  | .component _ component enabled => ∀ entity, Act.Accords A
    (Simple.setComponent entity component enabled) (Simple.setComponent entity component enabled)
  | .call commands => Act.Accords A (performAll run commands) (performAll run' commands)
  | .startSequence target => Act.Accords A (startAnother run owner target)
    (startAnother run' owner target)
  | .stopSequence target => Act.Accords A (Conductor.stop run target) (Conductor.stop run' target)
  | .tween _ => (∀ s t, A.rel s t → t.host.scene.pose? = s.host.scene.pose?) ∧
    ∀ entity pose, Act.Accords A (Simple.setPose entity pose) (Simple.setPose entity pose)
  | .barrier barrier _ =>
    (∀ s t, A.rel s t → t.barriers.count barrier = s.barriers.count barrier) ∧
    ∀ s t, A.rel s t → A.rel (s.arrive barrier) (t.arrive barrier)
  | .custom onEnter onTick onExit _ =>
    Act.Accords A (performAll run onEnter) (performAll run' onEnter) ∧
    Act.Accords A (performAll run onTick) (performAll run' onTick) ∧
    Act.Accords A (performAll run onExit) (performAll run' onExit)
  | _ => True

structure Accord.Hears (A : Accord) (run run' : Runner) (q : Question Command) : Prop where
  code : Act.Accords A (performAll run q.code) (performAll run' q.code)
  answers : A.Answers q.toCondition

abbrev Step.InAccord (A : Accord) (run run' : Runner) (owner : String) (x : Step Command) : Prop :=
  x.Each (A.Allows run run' owner) (A.Hears run run')

abbrev stepsInAccord (A : Accord) (run run' : Runner) (owner : String)
    (l : List (Step Command)) : Prop := stepsEach (A.Allows run run' owner) (A.Hears run run') l

section

variable {A : Accord} {run run' : Runner}

theorem Act.Accords.inquire {q : Question Command} (h : A.Hears run run' q) {a b : Asker}
    (hab : Asker.Mates A.mate a b) (owner : String) (polls : Nat) :
    Act.Accords A (inquire run a owner polls q) (inquire run' b owner polls q) :=
  .bind h.code fun _ => .ask h.answers hab owner polls

namespace Simple

theorem wait_accords (seconds dt : Float32) : Play.Accords A (fun p q => p = q)
    (wait seconds dt) (wait seconds dt) := by
  refine .read_bind fun p q hp => ?_
  rw [← hp]
  exact .bind (.write rfl) fun _ => .pure _

theorem frames_accords (count : UInt32) : Play.Accords A (fun p q => p = q)
    (frames count) (frames count) := by
  refine .read_bind fun p q hp => ?_
  rw [← hp]
  exact .bind (.write rfl) fun _ => .pure _

theorem invoke_accords {system : String} {command : Instruction}
    (h : Act.Accords A (invokeSystem system command) (invokeSystem system command))
    (owner : String) : Act.Accords A (invoke owner system command)
      (invoke owner system command) :=
  .bind h fun _ => .ite (.bind (.say _ _) fun _ => .pure _) (.pure _)

theorem component_accords {entity : EntityId} {component : String} {enabled : Bool}
    (h : Act.Accords A (setComponent entity component enabled)
      (setComponent entity component enabled)) (owner : String) :
    Act.Accords A (Simple.component owner entity component enabled)
      (Simple.component owner entity component enabled) :=
  .bind h fun _ => .ite (.bind (.say _ _) fun _ => .pure _) (.pure _)

theorem scriptedTick_accords (probe : Option String) {owner : String} (h : A.cast.named owner)
    (script : List Status) (dt : Float32) : Play.Accords A (fun p q => p = q)
      (scriptedTick probe owner script dt) (scriptedTick probe owner script dt) := by
  refine .read_bind fun p q hp => ?_
  rw [← hp]
  refine .bind (.write rfl) fun _ => ?_
  cases probe with
  | none => exact .pure _
  | some probe => exact .bind (.note (.probeTicked probe dt _ h)) fun _ => .pure _

theorem arrive_accords {barrier : String} {expected : UInt32}
    (hc : ∀ s t, A.rel s t → t.barriers.count barrier = s.barriers.count barrier)
    (ha : ∀ s t, A.rel s t → A.rel (s.arrive barrier) (t.arrive barrier)) (owner : String) :
    Play.Accords A BarrierProgress.Akin (arrive owner barrier expected)
      (arrive owner barrier expected) :=
  .bind (.onStage (.change ha)) fun _ => .bind (.onStage (.read hc)) fun _ =>
    .bind (.write ⟨rfl, rfl⟩) fun _ => .say _ _

/-- The settings only decide whether there is a warning. -/
theorem barrier_accords {barrier : String} {expected : UInt32}
    (hc : ∀ s t, A.rel s t → t.barriers.count barrier = s.barriers.count barrier)
    (owner : String) (dt : Float32) : Play.Accords A BarrierProgress.Akin
      (Simple.barrier owner barrier expected dt) (Simple.barrier owner barrier expected dt) := by
  refine .bind (.onStage (.read hc)) fun count => .read_bind fun p q hp => ?_
  rw [hp.released, hp.waited]
  refine .ite (.bind (.write ⟨rfl, rfl⟩) fun _ => .pure _) (.settings_bind fun a b => ?_)
  exact .bind (.write ⟨rfl, rfl⟩) fun _ => .remarking (.pure _) _ _ _ _

theorem await_accords {c d : Cue} (h : c.Mates A d) {question : Question Command}
    (ha : A.Hears run run' question) (limit : Option Float32) (policy : Expiry) (dt : Float32) :
    Play.Accords A (fun p q => p = q) (await run c question limit policy dt)
      (await run' d question limit policy dt) := by
  refine .bind (.change fun p q hp => by rw [hp]) fun _ => .read_bind fun p q hp => ?_
  rw [← hp, h.owner]
  refine .bind (.onStage (.inquire ha (.step h.site) _ _)) fun _ =>
    .ite (.pure _) (.read_bind fun p q hp => ?_)
  rw [← hp]
  refine .bind (.change fun p q hp => by rw [hp]) fun _ => ?_
  cases limit with
  | none => exact .pure _
  | some bound => exact .ite (.bind (.say _ _) fun _ => .pure _) (.pure _)

end Simple

namespace Tween

theorem enter_accords (t : Tween)
    (h : ∀ s u, A.rel s u → u.host.scene.pose? = s.host.scene.pose?) :
    Play.Accords A (fun p q => p = q) t.enter t.enter := by
  refine .read_bind fun p q hp => ?_
  rw [← hp]
  exact .bind (.onStage (.read fun s u hsu => by rw [h s u hsu])) fun _ => .write rfl

theorem tick_accords (t : Tween)
    (h : ∀ s u, A.rel s u → u.host.scene.pose? = s.host.scene.pose?)
    (hset : ∀ entity pose, Act.Accords A (Simple.setPose entity pose) (Simple.setPose entity pose))
    (owner : String) (dt : Float32) :
    Play.Accords A (fun p q => p = q) (t.tick owner dt) (t.tick owner dt) := by
  refine .read_bind fun p q hp => ?_
  rw [← hp]
  refine .bind (.onStage (.read fun s u hsu => by rw [h s u hsu])) fun current => ?_
  have hmissing : Play.Accords A (fun p q => p = q) (do
      Play.say (.targetMissing owner t.target.label p.entity)
      return Status.failed : Play TweenProgress Status) (do
      Play.say (.targetMissing owner t.target.label p.entity)
      return Status.failed) := .bind (.say _ _) fun _ => .pure _
  cases p.start with
  | none => exact hmissing
  | some start =>
    cases current with
    | none => exact hmissing
    | some current =>
      exact .bind (.write rfl) fun _ => .bind (.onStage (hset _ _)) fun _ =>
        .ite (.pure _) (.bind (.say _ _) fun _ => .pure _)

end Tween

namespace Cue

variable {π : Type} {R : π → π → Prop} {c d : Cue} {enter enter' exit exit' : Play π Unit}
  {tick tick' : Play π Status}

theorem enter_accords (hc : c.Mates A d) (h : Play.Accords A R enter enter') :
    Play.Accords A R (c.enter enter) (d.enter enter') :=
  .bind (.note (.called _ hc.site)) fun _ => .bind h fun _ => .note (.returned _ hc.site)

theorem tick_accords (hc : c.Mates A d) (dt : Float32) (h : Play.Accords A R tick tick') :
    Play.Accords A R (c.tick dt tick) (d.tick dt tick') :=
  .bind (.note (.called _ hc.site)) fun _ => .bind h fun _ =>
    .bind (.note (.returned _ hc.site)) fun _ => .pure _

theorem exit_accords (hc : c.Mates A d) (h : Play.Accords A R exit exit') :
    Play.Accords A R (c.exit exit) (d.exit exit') :=
  .bind (.note (.called _ hc.site)) fun _ => .bind h fun _ => .note (.returned _ hc.site)

theorem drive_accords (hc : c.Mates A d) (source : Source) (label : String) (index : Nat)
    (dt : Float32) (fresh : Bool) (he : Play.Accords A R enter enter')
    (ht : Play.Accords A R tick tick') (hx : Play.Accords A R exit exit') :
    Play.Accords A R (c.drive source label index dt fresh enter tick exit)
      (d.drive source label index dt fresh enter' tick' exit') := by
  have hopen : Play.Accords A R (c.openStep source label index fresh enter)
      (d.openStep source label index fresh enter') :=
    .ite (.traced (enter_accords hc he) _ _) (.pure ())
  have hclose : ∀ status, Play.Accords A R (c.closeStep source label index status exit)
      (d.closeStep source label index status exit') := fun status =>
    .ite (.bind (exit_accords hc hx) fun _ => .traced (.pure ()) _ _) (.pure ())
  exact .bind hopen fun _ => .bind (tick_accords hc dt ht) fun status =>
    .bind (hclose status) fun _ => .pure status

end Cue

section

variable {π ρ : Type} {R : π → π → Prop} {Q : ρ → ρ → Prop}

theorem Track.tick_accords {length : Nat} {onFailure : OnFailure}
    {drive drive' : Nat → Bool → Play π Status}
    (h : ∀ i fresh, Play.Accords A R (drive i fresh) (drive' i fresh)) :
    Play.Accords A (Track.Akin R) (Track.tick length onFailure drive)
      (Track.tick length onFailure drive') := by
  refine .read_bind fun t u htu => ?_
  rw [htu.cursor, htu.entered]
  refine .ite (.bind (.change fun _ _ h => ⟨h.cursor, rfl, h.children⟩) fun _ => ?_) (.pure _)
  refine .bind ((h _ _).part (fun _ _ h => h.children)
    fun _ _ _ _ h hp => ⟨h.cursor, h.entered, hp⟩) fun status => .ite (.pure _) ?_
  exact .bind (.change fun _ _ h => ⟨congrArg (· + 1) h.cursor, rfl, h.children⟩) fun _ =>
    .ite (.pure _) (.pure _)

theorem Track.cancel_accords {length : Nat} {exit exit' : Nat → Play π Unit}
    (h : ∀ i, Play.Accords A R (exit i) (exit' i)) :
    Play.Accords A (Track.Akin R) (Track.cancel length exit) (Track.cancel length exit') := by
  refine .read_bind fun t u htu => ?_
  rw [htu.cursor, htu.entered]
  have hend : Play.Accords A (Track.Akin R)
      (Play.change fun t => { t with entered := false, cursor := length })
      (Play.change fun t => { t with entered := false, cursor := length }) :=
    .change fun _ _ h => ⟨rfl, rfl, h.children⟩
  exact .ite (.bind ((h _).part (fun _ _ h => h.children)
    fun _ _ _ _ h hp => ⟨h.cursor, h.entered, hp⟩) fun _ => hend) hend

namespace ChoiceProgress

theorem enter_accords {c d : Cue} (hc : c.Mates A d) {question : Question Command}
    (ha : A.Hears run run' question) :
    Play.Accords A (ChoiceProgress.Akin R Q) (ChoiceProgress.enter run c question)
      (ChoiceProgress.enter run' d question) := by
  refine .bind (.change fun _ _ h => ⟨congrArg (· + 1) h.polls, h.second, h.yes, h.no⟩) fun _ =>
    .read_bind fun p q hpq => ?_
  rw [hpq.polls, hc.owner]
  exact .bind (.onStage (.inquire ha (.step hc.site) _ _)) fun _ =>
    .ite (.change fun _ _ h => ⟨h.polls, rfl, h.yes.rewound, h.no⟩)
      (.change fun _ _ h => ⟨h.polls, rfl, h.yes, h.no.rewound⟩)

theorem tick_accords {yes yes' : Play (Track π) Status} {no no' : Play (Track ρ) Status}
    (hy : Play.Accords A (Track.Akin R) yes yes') (hn : Play.Accords A (Track.Akin Q) no no') :
    Play.Accords A (ChoiceProgress.Akin R Q) (ChoiceProgress.tick yes no)
      (ChoiceProgress.tick yes' no') := by
  refine .read_bind fun p q hpq => ?_
  rw [hpq.second]
  exact .ite
    (hn.part (fun _ _ h => h.no) fun _ _ _ _ h hp => ⟨h.polls, h.second, h.yes, hp⟩)
    (hy.part (fun _ _ h => h.yes) fun _ _ _ _ h hp => ⟨h.polls, h.second, hp, h.no⟩)

end ChoiceProgress

theorem BoundedProgress.enter_accords :
    Play.Accords A (BoundedProgress.Akin R) BoundedProgress.enter BoundedProgress.enter :=
  .change fun _ _ h => ⟨rfl, h.body.rewound⟩

theorem BoundedProgress.tick_accords (owner : String) (seconds : Float32) (policy : Expiry)
    (dt : Float32) {body body' : Play (Track π) Status} {cancel cancel' : Play (Track π) Unit}
    (hb : Play.Accords A (Track.Akin R) body body')
    (hc : Play.Accords A (Track.Akin R) cancel cancel') :
    Play.Accords A (BoundedProgress.Akin R)
      (BoundedProgress.tick owner seconds policy dt body cancel)
      (BoundedProgress.tick owner seconds policy dt body' cancel') := by
  have hpart : ∀ {α : Type} {x y : Play (Track π) α}, Play.Accords A (Track.Akin R) x y →
      Play.Accords A (BoundedProgress.Akin R) (onBody x) (onBody y) := fun h =>
    h.part (fun _ _ h => h.body) fun _ _ _ _ h hp => ⟨h.elapsed, hp⟩
  refine .bind (.change fun _ _ h => ⟨congrArg (· + dt) h.elapsed, h.body⟩) fun _ =>
    .read_bind fun p q hpq => ?_
  rw [hpq.elapsed]
  exact .ite (.bind (.say _ _) fun _ => .bind (hpart hc) fun _ => .pure _) (hpart hb)

theorem RetryProgress.enter_accords :
    Play.Accords A (RetryProgress.Akin R) RetryProgress.enter RetryProgress.enter :=
  .change fun _ _ h => ⟨rfl, h.body.rewound⟩

theorem RetryProgress.tick_accords (owner : String) (attempts : UInt32)
    {body body' : Play (Track π) Status} (h : Play.Accords A (Track.Akin R) body body') :
    Play.Accords A (RetryProgress.Akin R) (RetryProgress.tick owner attempts body)
      (RetryProgress.tick owner attempts body') := by
  refine .bind (h.part (fun _ _ h => h.body) fun _ _ _ _ h hp => ⟨h.failures, hp⟩)
    fun status => ?_
  cases status with
  | failed =>
    refine .bind (.change fun _ _ h => ⟨congrArg (· + 1) h.failures, h.body⟩) fun _ =>
      .read_bind fun p q hpq => ?_
    rw [hpq.failures]
    exact .ite (.bind (.say _ _) fun _ => .pure _)
      (.bind (.change fun _ _ h => ⟨h.failures, h.body.rewound⟩) fun _ => .pure _)
  | running => exact .pure _
  | succeeded => exact .pure _

theorem Quorum.conclude_accords (mode : Quorum) (owner : String) (settled : List Status)
    (pending : Nat) : Play.Accords A R (mode.conclude owner settled pending)
      (mode.conclude owner settled pending) := by
  unfold Quorum.conclude
  split
  · exact .ite (.bind (.say _ _) fun _ => .pure _) (.pure _)
  · exact .pure _

theorem Lane.onChild_accords {α : Type} {x y : Play π α} (h : Play.Accords A R x y) :
    Play.Accords A (Lane.Akin R) (Lane.onChild x) (Lane.onChild y) :=
  h.part (fun _ _ h => h.child) fun _ _ _ _ h hp => ⟨h.settled, hp⟩

theorem Lane.enter_accords {c d : Cue} (hc : c.Mates A d) {body body' : Play π Unit}
    (h : Play.Accords A R body body') :
    Play.Accords A (Lane.Akin R) (Lane.enter c body) (Lane.enter d body') :=
  .bind (.change fun _ _ h => ⟨rfl, h.child⟩) fun _ => Lane.onChild_accords (Cue.enter_accords hc h)

theorem Lane.tick_accords {c d : Cue} (hc : c.Mates A d) (dt : Float32)
    {body body' : Play π Status} {exit exit' : Play π Unit} (h : Play.Accords A R body body')
    (hx : Play.Accords A R exit exit') :
    Play.Accords A (Lane.Akin R) (Lane.tick c dt body exit) (Lane.tick d dt body' exit') := by
  refine .read_bind fun l m hlm => ?_
  rw [hlm.settled]
  refine .ite (.pure _) (.bind (Lane.onChild_accords (Cue.tick_accords hc dt h)) fun status =>
    .ite (.pure _) (.bind (Lane.onChild_accords (Cue.exit_accords hc hx)) fun _ => ?_))
  exact .bind (.change fun _ _ h => ⟨rfl, h.child⟩) fun _ => .pure _

end

variable {run run' : Runner} {owner : String}

theorem Step.exit_accords (x : Step Command) {c d : Cue} (hc : c.Mates A d)
    (h : x.InAccord A run run' owner) :
    Play.Accords A x.Akin (x.exit run c) (x.exit run' d) := by
  cases x with
  | probe probe script =>
    rw [Step.exit, Step.exit, hc.owner]
    exact .note (.probeExited probe hc.named)
  | custom onEnter onTick onExit script => exact .onStage h.2.2
  | _ => exact .pure ()

mutual

theorem Step.enter_accords : (x : Step Command) → {c d : Cue} → c.Mates A d →
    x.InAccord A run run' owner → Play.Accords A x.Akin (x.enter run c) (x.enter run' d)
  | .wait _, _, _, _, _ => .write rfl
  | .frames _, _, _, _, _ => .write rfl
  | .tween t, _, _, _, h => t.enter_accords h.1
  | .await _ _ _, _, _, _, _ => .change fun (p q : AwaitProgress) (h : p = q) => by
    obtain rfl := h
    rfl
  | .barrier barrier expected, c, d, hc, h => by
    rw [Step.enter, Step.enter, hc.owner]
    exact Simple.arrive_accords h.1 h.2 c.owner
  | .probe probe _, c, d, hc, _ => by
    rw [Step.enter, Step.enter, hc.owner]
    exact .note (.probeEntered probe hc.named)
  | .choose _ _ _, _, _, hc, h => ChoiceProgress.enter_accords hc h.1
  | .bounded _ _ _, _, _, _, _ => BoundedProgress.enter_accords
  | .retry _ _, _, _, _, _ => RetryProgress.enter_accords
  | .group _, _, _, _, _ => .change fun _ _ h => h.rewound
  | .parallel _ steps, _, _, hc, h => enterLanes_accords steps hc 0 h
  | .custom _ _ _ _, _, _, _, h => .onStage h.1
  | .publish _, _, _, _, _ => .pure ()
  | .invoke _ _, _, _, _, _ => .pure ()
  | .component _ _ _, _, _, _, _ => .pure ()
  | .call _, _, _, _, _ => .pure ()
  | .startSequence _, _, _, _, _ => .pure ()
  | .stopSequence _, _, _, _, _ => .pure ()

theorem enterLanes_accords : (l : List (Step Command)) → {c d : Cue} → c.Mates A d →
    (index : Nat) → stepsInAccord A run run' owner l →
    Play.Accords A (lanesAkin l) (enterLanes run l c index) (enterLanes run' l d index)
  | [], _, _, _, _, _ => .pure ()
  | x :: rest, _, _, hc, index, h =>
    .bind (.first (Lane.enter_accords (hc.child index) (Step.enter_accords x (hc.child index) h.1)))
      fun _ => .second (enterLanes_accords rest hc (index + 1) h.2)

end

theorem exitNth_accords : (l : List (Step Command)) → {c d : Cue} → c.Mates A d → (n : Nat) →
    stepsInAccord A run run' owner l →
    Play.Accords A (childrenAkin l) (exitNth run l c n) (exitNth run' l d n)
  | [], _, _, _, _, _ => .pure ()
  | x :: _, _, _, hc, 0, h => .first (Cue.exit_accords hc (Step.exit_accords x hc h.1))
  | _ :: rest, _, _, hc, n + 1, h => .second (exitNth_accords rest hc n h.2)

variable {dt : Float32}

mutual

theorem Step.tick_accords : (x : Step Command) → {c d : Cue} → c.Mates A d → c.owner = owner →
    x.InAccord A run run' owner → Play.Accords A x.Akin (x.tick run dt c) (x.tick run' dt d)
  | .wait seconds, _, _, _, _, _ => Simple.wait_accords seconds dt
  | .frames count, _, _, _, _, _ => Simple.frames_accords count
  | .publish event, _, _, _, _, _ => .bind (.onStage (.publish event)) fun _ => .pure _
  | .invoke system command, c, d, hc, _, h => by
    rw [Step.tick, Step.tick, hc.owner]
    exact .onStage (Simple.invoke_accords h c.owner)
  | .component _ component enabled, c, d, hc, _, h => by
    rw [Step.tick, Step.tick, hc.owner]
    refine .read_bind fun (entity : EntityId) (entity' : EntityId) he => ?_
    obtain rfl : entity = entity' := he
    exact .onStage (Simple.component_accords (h entity) c.owner)
  | .call _, _, _, _, _, h => .bind (.onStage h) fun _ => .pure _
  | .startSequence target, c, d, hc, ho, h => by
    rw [Step.tick, Step.tick, hc.owner, ho]
    exact .onStage h
  | .stopSequence _, _, _, _, _, h => .bind (.onStage h) fun _ => .pure _
  | .tween t, c, d, hc, _, h => by
    rw [Step.tick, Step.tick, hc.owner]
    exact t.tick_accords h.1 h.2 c.owner dt
  | .await _ limit policy, _, _, hc, _, h => Simple.await_accords hc h limit policy dt
  | .barrier _ _, c, d, hc, _, h => by
    rw [Step.tick, Step.tick, hc.owner]
    exact Simple.barrier_accords h.1 c.owner dt
  | .probe probe script, c, d, hc, _, _ => by
    rw [Step.tick, Step.tick, hc.owner]
    exact Simple.scriptedTick_accords (some probe) hc.named script dt
  | .custom _ _ _ script, c, d, hc, _, h => by
    rw [Step.tick, Step.tick, hc.owner]
    exact .bind (.onStage h.2.1) fun _ => Simple.scriptedTick_accords none hc.named script dt
  | .choose _ yes no, _, _, hc, ho, h => by
    rw [Step.tick, Step.tick]
    exact ChoiceProgress.tick_accords
      (Track.tick_accords fun i fresh => driveNth_accords yes (hc.child i) ho i i fresh h.2.1)
      (Track.tick_accords fun i fresh => driveNth_accords no (hc.otherwise i) ho i i fresh h.2.2)
  | .bounded seconds policy steps, c, d, hc, ho, h => by
    rw [Step.tick, Step.tick, hc.owner]
    exact BoundedProgress.tick_accords c.owner seconds policy dt
      (Track.tick_accords fun i fresh => driveNth_accords steps (hc.child i) ho i i fresh h)
      (Track.cancel_accords fun i => exitNth_accords steps (hc.child i) i h)
  | .retry attempts steps, c, d, hc, ho, h => by
    rw [Step.tick, Step.tick, hc.owner]
    exact RetryProgress.tick_accords c.owner attempts
      (Track.tick_accords fun i fresh => driveNth_accords steps (hc.child i) ho i i fresh h)
  | .group steps, _, _, hc, ho, h => by
    rw [Step.tick, Step.tick]
    exact Track.tick_accords fun i fresh => driveNth_accords steps (hc.child i) ho i i fresh h
  | .parallel mode steps, c, d, hc, ho, h => by
    rw [Step.tick, Step.tick, hc.owner]
    refine .bind (tickLanes_accords steps hc ho 0 h) fun settled => .read_bind fun p q hpq => ?_
    rw [pendingLanes_akin steps p q hpq]
    exact mode.conclude_accords c.owner _ _

theorem driveNth_accords : (l : List (Step Command)) → {c d : Cue} → c.Mates A d →
    c.owner = owner → (index n : Nat) → (fresh : Bool) → stepsInAccord A run run' owner l →
    Play.Accords A (childrenAkin l) (driveNth run dt l c index n fresh)
      (driveNth run' dt l d index n fresh)
  | [], _, _, _, _, _, _, _, _ => .pure _
  | x :: _, _, _, hc, ho, index, 0, fresh, h => .first (Cue.drive_accords hc .flow x.label index dt
      fresh (Step.enter_accords x hc h.1) (Step.tick_accords x hc ho h.1)
      (Step.exit_accords x hc h.1))
  | _ :: rest, _, _, hc, ho, index, n + 1, fresh, h =>
    .second (driveNth_accords rest hc ho index n fresh h.2)

theorem tickLanes_accords : (l : List (Step Command)) → {c d : Cue} → c.Mates A d →
    c.owner = owner → (index : Nat) → stepsInAccord A run run' owner l →
    Play.Accords A (lanesAkin l) (tickLanes run dt l c index) (tickLanes run' dt l d index)
  | [], _, _, _, _, _, _ => .pure _
  | x :: rest, _, _, hc, ho, index, h =>
    .bind (.first (Lane.tick_accords (hc.child index) dt
      (Step.tick_accords x (hc.child index) ho h.1) (Step.exit_accords x (hc.child index) h.1)))
      fun _ => .bind (.second (tickLanes_accords rest hc ho (index + 1) h.2)) fun _ => .pure _

end

end

end Sequencer
