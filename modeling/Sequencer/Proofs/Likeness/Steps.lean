import Sequencer.Proofs.Likeness
import Sequencer.Proofs.Course.Steps

/-!
# Steps on stages that are alike

On stages that are alike to a step, the step does alike, as long as the user code in it does. The
rules go by the ways in which plays are put together, then over the tree of a step.
-/

set_option autoImplicit false

namespace Sequencer

def Likeness.cue (L : Likeness) (c : Cue) : Cue := { c with site := L.site c.site }

section

variable {L : Likeness}

theorem Likeness.cue_child {c : Cue} (h : L.own c.site) (i : Nat) :
    L.own (c.child i).site ∧ L.cue (c.child i) = (L.cue c).child i :=
  ⟨(L.child c.site i h).1, congrArg (Cue.mk c.owner) (L.child c.site i h).2⟩

theorem Likeness.cue_otherwise {c : Cue} (h : L.own c.site) (i : Nat) :
    L.own (c.otherwise i).site ∧ L.cue (c.otherwise i) = (L.cue c).otherwise i :=
  ⟨(L.otherwise c.site i h).1, congrArg (Cue.mk c.owner) (L.otherwise c.site i h).2⟩

theorem ask_alike {σ : Site} (h : L.own σ) (owner : String) (polls : Nat) (c : Condition) :
    Act.Alike L (ask (.step σ) owner polls c) (ask (.step (L.site σ)) owner polls c) := by
  refine .bind (.read fun _ _ hst => c.test.eval_alike L hst owner polls) fun r => ?_
  cases r with
  | ok answer => exact .bind (.note fun _ _ hst => L.polled _ _ hst h) fun _ => .pure answer
  | error e => exact .halt e

/-- A question does alike if the code behind it does. -/
theorem inquire_alike {run run' : Runner} {σ : Site} (h : L.own σ) {q : Question Command}
    (hq : Act.Alike L (performAll run q.code) (performAll run' q.code)) (owner : String)
    (polls : Nat) : Act.Alike L (inquire run (.step σ) owner polls q)
      (inquire run' (.step (L.site σ)) owner polls q) :=
  .bind hq fun _ => ask_alike h owner polls q.toCondition

namespace Simple

theorem publish_alike (e : Event) : Act.Alike L (publish e) (publish e) :=
  .bind (.read fun _ _ h => by rw [L.host h]) fun _ => .ite (.pure ())
    (.bind (.common rfl) fun _ => .host fun _ _ h => by rw [L.host h])

theorem invokeSystem_alike (system : String) (command : Instruction) :
    Act.Alike L (invokeSystem system command) (invokeSystem system command) :=
  .bind (.inScene _) fun _ => .bind (.common rfl) fun _ => .pure _

theorem setComponent_alike (entity : EntityId) (component : String) (enabled : Bool) :
    Act.Alike L (setComponent entity component enabled) (setComponent entity component enabled) :=
  .bind (.inScene _) fun _ => .bind (.common rfl) fun _ => .pure _

theorem invoke_alike (owner system : String) (command : Instruction) :
    Act.Alike L (invoke owner system command) (invoke owner system command) :=
  .bind (invokeSystem_alike system command) fun _ =>
    .ite (.bind (.say rfl) fun _ => .pure _) (.pure _)

theorem component_alike (owner : String) (entity : EntityId) (component : String)
    (enabled : Bool) : Act.Alike L (Simple.component owner entity component enabled)
      (Simple.component owner entity component enabled) :=
  .bind (setComponent_alike entity component enabled) fun _ =>
    .ite (.bind (.say rfl) fun _ => .pure _) (.pure _)

theorem setPose_alike (entity : EntityId) (t : Pose) :
    Act.Alike L (setPose entity t) (setPose entity t) := by
  refine .bind (.read fun _ _ h => by rw [L.host h]) fun _ =>
    .ite (.bind (.pure false) fun ok => ?_) (.bind (.inScene _) fun ok => ?_)
  · exact .bind (.common rfl) fun _ => .pure ok
  · exact .bind (.common rfl) fun _ => .pure ok

theorem wait_alike (seconds dt : Float32) : Play.Alike L (wait seconds dt) (wait seconds dt) :=
  .bind .read fun _ => .bind (.write _) fun _ => .pure _

theorem frames_alike (count : UInt32) : Play.Alike L (frames count) (frames count) :=
  .bind .read fun _ => .bind (.write _) fun _ => .pure _

theorem scriptedTick_alike (probe : Option String) (owner : String) (script : List Status)
    (dt : Float32) : Play.Alike L (scriptedTick probe owner script dt)
      (scriptedTick probe owner script dt) := by
  refine .bind .read fun used => .bind (.write _) fun _ => ?_
  cases probe with
  | none => exact .pure _
  | some probe => exact .bind (.common rfl) fun _ => .pure _

theorem arrive_alike (owner barrier : String) (expected : UInt32) :
    Play.Alike L (arrive owner barrier expected) (arrive owner barrier expected) := by
  have harrive : Act.Alike L (.change (·.arrive barrier)) (.change (·.arrive barrier)) :=
    fun _ _ h => ⟨rfl, L.arrive barrier h⟩
  exact .bind (.onStage harrive) fun _ =>
    .bind (.onStage (.read fun _ _ h => by rw [L.barriers h])) fun _ =>
      .bind (.write _) fun _ => .say rfl

theorem barrier_alike (owner barrier : String) (expected : UInt32) (dt : Float32) :
    Play.Alike L (Simple.barrier owner barrier expected dt)
      (Simple.barrier owner barrier expected dt) :=
  .bind (.onStage (.read fun _ _ h => by rw [L.barriers h])) fun _ => .bind .read fun _ => .ite
    (.bind (.write _) fun _ => .pure _)
    (.bind .settings fun _ => .bind (.write _) fun _ =>
      .ite (.bind (.say rfl) fun _ => .pure _) (.pure _))

theorem await_alike {run run' : Runner} {cue : Cue} (h : L.own cue.site)
    {question : Question Command}
    (hq : Act.Alike L (performAll run question.code) (performAll run' question.code))
    (limit : Option Float32) (policy : Expiry) (dt : Float32) :
    Play.Alike L (await run cue question limit policy dt)
      (await run' (L.cue cue) question limit policy dt) := by
  refine .bind (.change _) fun _ => .bind .read fun _ =>
    .bind (.onStage (inquire_alike h hq _ _)) fun _ => .ite (.pure _) ?_
  refine .bind .read fun _ => .bind (.change _) fun _ => ?_
  cases limit with
  | none => exact .pure _
  | some bound => exact .ite (.bind (.say rfl) fun _ => .pure _) (.pure _)

end Simple

theorem onHost_alike (f : Host → Host) : Act.Alike L (onHost f) (onHost f) :=
  .host (f := fun s => f s.host) fun _ _ h => by rw [L.host h]

theorem resolved_alike (label : String) : Act.Alike L (resolved label) (resolved label) :=
  .bind (.read fun _ _ h => by rw [L.host h]) fun _ => .pure _

/-- An edit of the host's own state does alike. -/
theorem Change.apply_alike (c : Change) : Act.Alike L c.apply c.apply := by
  cases c with
  | engine frame elapsed timeScale => exact .bind (onHost_alike _) fun _ => .pure _
  | flag name value => exact .bind (onHost_alike _) fun _ => .pure _
  | count name amount =>
    exact .bind (.read fun _ _ h => by rw [L.host h]) fun _ => .bind (onHost_alike _) fun _ =>
      .pure _
  | publish event => exact .bind (Simple.publish_alike event) fun _ => .pure _
  | takeEvents =>
    exact .bind (.read fun _ _ h => by rw [L.host h]) fun _ => .bind (onHost_alike _) fun _ =>
      .pure _
  | addSystem name => exact .bind (.inScene _) fun _ => .pure _
  | invoke system command =>
    exact .bind (Simple.invokeSystem_alike system command) fun _ => .pure _
  | spawn label pose => exact .bind (.inScene _) fun _ => .bind (onHost_alike _) fun _ => .pure _
  | despawn label =>
    exact .bind (resolved_alike label) fun _ => .bind (.inScene _) fun _ => .pure _
  | addComponent label component enabled =>
    exact .bind (resolved_alike label) fun _ => .bind (.inScene _) fun _ => .pure _
  | setComponent label component enabled =>
    exact .bind (resolved_alike label) fun entity =>
      .bind (Simple.setComponent_alike entity component enabled) fun _ => .pure _
  | setPose label pose =>
    exact .bind (resolved_alike label) fun entity =>
      .bind (Simple.setPose_alike entity pose) fun _ => .pure _
  | lock label =>
    exact .bind (resolved_alike label) fun _ => .bind (onHost_alike _) fun _ => .pure _
  | arrive barrier =>
    exact .bind (fun _ _ h => ⟨rfl, L.arrive barrier h⟩) fun _ =>
      .bind (.read fun _ _ h => by rw [L.barriers h]) fun _ => .pure _

namespace Tween

theorem enter_alike (t : Tween) : Play.Alike L t.enter t.enter :=
  .bind .read fun _ => .bind (.onStage (.read fun _ _ h => by rw [L.host h])) fun _ => .write _

theorem tick_alike (t : Tween) (owner : String) (dt : Float32) :
    Play.Alike L (t.tick owner dt) (t.tick owner dt) := by
  refine .bind .read fun p => .bind (.onStage (.read fun _ _ h => by rw [L.host h]))
    fun current => ?_
  have hmissing : Play.Alike L (do
      Play.say (.targetMissing owner t.target.label p.entity)
      return Status.failed : Play TweenProgress Status) (do
      Play.say (.targetMissing owner t.target.label p.entity)
      return Status.failed) := .bind (.say rfl) fun _ => .pure _
  cases p.start with
  | none => exact hmissing
  | some start =>
    cases current with
    | none => exact hmissing
    | some current =>
      exact .bind (.write _) fun _ => .bind (.onStage (Simple.setPose_alike _ _)) fun _ =>
        .ite (.pure _) (.bind (.say rfl) fun _ => .pure _)

end Tween

namespace Cue

variable {π : Type} {c : Cue} {source source' : Source} {label : String} {index index' : Nat}
  {dt : Float32} {fresh : Bool} {enter enter' exit exit' : Play π Unit}
  {tick tick' : Play π Status}

theorem called_alike (hc : L.own c.site) (call : Call) :
    Play.Alike L (Play.note (.called c.site call) : Play π Unit)
      (Play.note (.called (L.cue c).site call)) :=
  .onStage (.note fun _ _ h => L.called call h hc)

theorem returned_alike (hc : L.own c.site) (r : Option Status) :
    Play.Alike L (Play.note (.returned c.site r) : Play π Unit)
      (Play.note (.returned (L.cue c).site r)) :=
  .onStage (.note fun _ _ h => L.returned r h hc)

theorem enter_alike (hc : L.own c.site) (h : Play.Alike L enter enter') :
    Play.Alike L (c.enter enter) ((L.cue c).enter enter') :=
  .bind (called_alike hc _) fun _ => .bind h fun _ => returned_alike hc _

theorem tick_alike (hc : L.own c.site) (h : Play.Alike L tick tick') :
    Play.Alike L (c.tick dt tick) ((L.cue c).tick dt tick') :=
  .bind (called_alike hc _) fun _ => .bind h fun _ => .bind (returned_alike hc _) fun _ => .pure _

theorem exit_alike (hc : L.own c.site) (h : Play.Alike L exit exit') :
    Play.Alike L (c.exit exit) ((L.cue c).exit exit') :=
  .bind (called_alike hc _) fun _ => .bind h fun _ => returned_alike hc _

/-- Who drives a step, and by which index it is told, may differ on the two sides. -/
theorem drive_alike (hc : L.own c.site)
    (hin : ∀ s t, L.related s t → L.related (s.note (.notice (.entered source c.owner label index)))
      (t.note (.notice (.entered source' c.owner label index'))))
    (hout : ∀ status s t, L.related s t →
      L.related (s.note (.notice (.exited source c.owner label index status)))
        (t.note (.notice (.exited source' c.owner label index' status))))
    (he : Play.Alike L enter enter') (ht : Play.Alike L tick tick')
    (hx : Play.Alike L exit exit') :
    Play.Alike L (c.drive source label index dt fresh enter tick exit)
      ((L.cue c).drive source' label index' dt fresh enter' tick' exit') := by
  have hopen : Play.Alike L (c.openStep source label index fresh enter)
      ((L.cue c).openStep source' label index' fresh enter') :=
    .ite (.bind .settings fun _ => .ite (.bind (.onStage (.note hin)) fun _ => enter_alike hc he)
      (enter_alike hc he)) (.pure ())
  have hclose : ∀ status, Play.Alike L (c.closeStep source label index status exit)
      ((L.cue c).closeStep source' label index' status exit') := fun status =>
    .ite (.bind (exit_alike hc hx) fun _ => .bind .settings fun _ =>
      .ite (.onStage (.note (hout status))) (.pure ())) (.pure ())
  exact .bind hopen fun _ => .bind (tick_alike hc ht) fun status =>
    .bind (hclose status) fun _ => .pure status

end Cue

section

variable {π ρ : Type}

theorem Track.tick_alike {length : Nat} {onFailure : OnFailure}
    {drive drive' : Nat → Bool → Play π Status}
    (h : ∀ i fresh, Play.Alike L (drive i fresh) (drive' i fresh)) :
    Play.Alike L (Track.tick length onFailure drive) (Track.tick length onFailure drive') := by
  refine .bind .read fun t => .ite (.bind (.change _) fun _ => .bind (.part (h _ _)) fun status =>
    .ite (.pure _) ?_) (.pure _)
  exact .bind (.change _) fun _ => .ite (.pure _) (.pure _)

theorem Track.cancel_alike {length : Nat} {exit exit' : Nat → Play π Unit}
    (h : ∀ i, Play.Alike L (exit i) (exit' i)) :
    Play.Alike L (Track.cancel length exit) (Track.cancel length exit') :=
  .bind .read fun _ => .ite (.bind (.part (h _)) fun _ => .change _) (.change _)

theorem ChoiceProgress.enter_alike {run run' : Runner} {cue : Cue} (h : L.own cue.site)
    {question : Question Command}
    (hq : Act.Alike L (performAll run question.code) (performAll run' question.code)) :
    Play.Alike L (ChoiceProgress.enter (π := π) (ρ := ρ) run cue question)
      (ChoiceProgress.enter run' (L.cue cue) question) :=
  .bind (.change _) fun _ => .bind .read fun _ =>
    .bind (.onStage (inquire_alike h hq _ _)) fun _ => .ite (.change _) (.change _)

theorem ChoiceProgress.tick_alike {yes yes' : Play (Track π) Status}
    {no no' : Play (Track ρ) Status} (hy : Play.Alike L yes yes')
    (hn : Play.Alike L no no') :
    Play.Alike L (ChoiceProgress.tick yes no) (ChoiceProgress.tick yes' no') :=
  .bind .read fun _ => .ite (.part hn) (.part hy)

theorem BoundedProgress.tick_alike {owner : String} {seconds : Float32} {policy : Expiry}
    {dt : Float32} {body body' : Play (Track π) Status} {cancel cancel' : Play (Track π) Unit}
    (hb : Play.Alike L body body') (hc : Play.Alike L cancel cancel') :
    Play.Alike L (BoundedProgress.tick owner seconds policy dt body cancel)
      (BoundedProgress.tick owner seconds policy dt body' cancel') :=
  .bind (.change _) fun _ => .bind .read fun _ => .ite
    (.bind (.say rfl) fun _ => .bind (.part hc) fun _ => .pure _) (.part hb)

theorem RetryProgress.tick_alike {owner : String} {attempts : UInt32}
    {body body' : Play (Track π) Status} (h : Play.Alike L body body') :
    Play.Alike L (RetryProgress.tick owner attempts body)
      (RetryProgress.tick owner attempts body') := by
  refine .bind (.part h) fun status => ?_
  cases status with
  | failed =>
    exact .bind (.change _) fun _ => .bind .read fun _ => .ite
      (.bind (.say rfl) fun _ => .pure _) (.bind (.change _) fun _ => .pure _)
  | running => exact .pure _
  | succeeded => exact .pure _

theorem Quorum.conclude_alike (mode : Quorum) (owner : String) (settled : List Status)
    (pending : Nat) :
    Play.Alike L (mode.conclude owner settled pending : Play π Status)
      (mode.conclude owner settled pending) := by
  unfold Quorum.conclude
  split
  · exact .ite (.bind (.say rfl) fun _ => .pure _) (.pure _)
  · exact .pure _

theorem Lane.enter_alike {cue : Cue} (hc : L.own cue.site) {body body' : Play π Unit}
    (h : Play.Alike L body body') :
    Play.Alike L (Lane.enter cue body) (Lane.enter (L.cue cue) body') :=
  .bind (.change _) fun _ => .part (Cue.enter_alike hc h)

theorem Lane.tick_alike {cue : Cue} (hc : L.own cue.site) {dt : Float32}
    {body body' : Play π Status} {exit exit' : Play π Unit} (h : Play.Alike L body body')
    (hx : Play.Alike L exit exit') :
    Play.Alike L (Lane.tick cue dt body exit) (Lane.tick (L.cue cue) dt body' exit') :=
  .bind .read fun _ => .ite (.pure _) (.bind (.part (Cue.tick_alike hc h)) fun _ => .ite (.pure _)
    (.bind (.part (Cue.exit_alike hc hx)) fun _ => .bind (.change _) fun _ => .pure _))

end

end

section

variable (P : (α : Type) → Act α → Act α → Prop) (run run' : Runner) (owner : String)

mutual

def Step.UserCode : Step Command → Prop
  | .call commands => P Unit (performAll run commands) (performAll run' commands)
  | .startSequence target => P Status (startAnother run owner target)
    (startAnother run' owner target)
  | .stopSequence target => P Bool (Conductor.stop run target) (Conductor.stop run' target)
  | .choose question yes no =>
    P Unit (performAll run question.code) (performAll run' question.code) ∧
      stepsUserCode yes ∧ stepsUserCode no
  | .await question _ _ => P Unit (performAll run question.code) (performAll run' question.code)
  | .bounded _ _ steps => stepsUserCode steps
  | .retry _ steps => stepsUserCode steps
  | .group steps => stepsUserCode steps
  | .parallel _ steps => stepsUserCode steps
  | .custom onEnter onTick onExit _ =>
    P Unit (performAll run onEnter) (performAll run' onEnter) ∧
      P Unit (performAll run onTick) (performAll run' onTick) ∧
      P Unit (performAll run onExit) (performAll run' onExit)
  | _ => True

def stepsUserCode : List (Step Command) → Prop
  | [] => True
  | s :: rest => s.UserCode ∧ stepsUserCode rest

end

variable {P run run' owner} {Q : (α : Type) → Act α → Act α → Prop}

mutual

theorem Step.UserCode.mono (hPQ : ∀ α x y, P α x y → Q α x y) : (s : Step Command) →
    s.UserCode P run run' owner → s.UserCode Q run run' owner
  | .call _, h => hPQ _ _ _ h
  | .startSequence _, h => hPQ _ _ _ h
  | .stopSequence _, h => hPQ _ _ _ h
  | .custom _ _ _ _, h => ⟨hPQ _ _ _ h.1, hPQ _ _ _ h.2.1, hPQ _ _ _ h.2.2⟩
  | .choose _ yes no, h =>
    ⟨hPQ _ _ _ h.1, stepsUserCode.mono hPQ yes h.2.1, stepsUserCode.mono hPQ no h.2.2⟩
  | .await _ _ _, h => hPQ _ _ _ h
  | .bounded _ _ steps, h => stepsUserCode.mono hPQ steps h
  | .retry _ steps, h => stepsUserCode.mono hPQ steps h
  | .group steps, h => stepsUserCode.mono hPQ steps h
  | .parallel _ steps, h => stepsUserCode.mono hPQ steps h
  | .wait _, _ => trivial
  | .frames _, _ => trivial
  | .publish _, _ => trivial
  | .invoke _ _, _ => trivial
  | .component _ _ _, _ => trivial
  | .tween _, _ => trivial
  | .barrier _ _, _ => trivial
  | .probe _ _, _ => trivial

theorem stepsUserCode.mono (hPQ : ∀ α x y, P α x y → Q α x y) : (l : List (Step Command)) →
    stepsUserCode P run run' owner l → stepsUserCode Q run run' owner l
  | [], _ => trivial
  | s :: rest, h => ⟨Step.UserCode.mono hPQ s h.1, stepsUserCode.mono hPQ rest h.2⟩

end

structure AllUserCode (P : (α : Type) → Act α → Act α → Prop) (run run' : Runner)
    (owner : String) : Prop where
  commands : ∀ l, P Unit (performAll run l) (performAll run' l)
  starts : ∀ target, P Status (startAnother run owner target) (startAnother run' owner target)
  stops : ∀ target, P Bool (Conductor.stop run target) (Conductor.stop run' target)

mutual

theorem AllUserCode.step (h : AllUserCode P run run' owner) :
    (s : Step Command) → s.UserCode P run run' owner
  | .call _ => h.commands _
  | .startSequence target => h.starts target
  | .stopSequence target => h.stops target
  | .custom _ _ _ _ => ⟨h.commands _, h.commands _, h.commands _⟩
  | .choose _ yes no => ⟨h.commands _, h.steps yes, h.steps no⟩
  | .await _ _ _ => h.commands _
  | .bounded _ _ steps => h.steps steps
  | .retry _ steps => h.steps steps
  | .group steps => h.steps steps
  | .parallel _ steps => h.steps steps
  | .wait _ => trivial
  | .frames _ => trivial
  | .publish _ => trivial
  | .invoke _ _ => trivial
  | .component _ _ _ => trivial
  | .tween _ => trivial
  | .barrier _ _ => trivial
  | .probe _ _ => trivial

theorem AllUserCode.steps (h : AllUserCode P run run' owner) :
    (l : List (Step Command)) → stepsUserCode P run run' owner l
  | [] => trivial
  | s :: rest => ⟨h.step s, h.steps rest⟩

end

theorem stepsUserCode.of_forall : {l : List (Step Command)} →
    (∀ s ∈ l, s.UserCode P run run' owner) → stepsUserCode P run run' owner l
  | [], _ => trivial
  | s :: _, h => ⟨h s List.mem_cons_self, of_forall fun s hs => h s (List.mem_cons_of_mem _ hs)⟩

end

section

variable (L : Likeness) (run run' : Runner) (owner : String)

abbrev Step.Alike (s : Step Command) : Prop := s.UserCode (fun _ => Act.Alike L) run run' owner

abbrev stepsAlike (l : List (Step Command)) : Prop :=
  stepsUserCode (fun _ => Act.Alike L) run run' owner l

variable {L run run' owner}

theorem performAll_alike {commands : List Command}
    (h : ∀ c ∈ commands, Act.Alike L (run c) (run' c)) :
    Act.Alike L (performAll run commands) (performAll run' commands) := by
  induction commands with
  | nil => exact .pure ()
  | cons c rest ih =>
    exact .bind (h c List.mem_cons_self) fun _ => .bind (.common rfl) fun _ =>
      ih fun c' hc' => h c' (List.mem_cons_of_mem _ hc')

structure Runner.Alike (L : Likeness) (run run' : Runner) : Prop where
  command : ∀ c, Act.Alike L (run c) (run' c)
  start : ∀ target, Act.Alike L (Conductor.start run target) (Conductor.start run' target)
  stop : ∀ target, Act.Alike L (Conductor.stop run target) (Conductor.stop run' target)

theorem Runner.Alike.all (h : Runner.Alike L run run') :
    AllUserCode (fun _ => Act.Alike L) run run' owner where
  commands _ := performAll_alike fun c _ => h.command c
  starts target := .bind (h.start target) fun r => match r with
    | .ok _ => .pure _
    | .error _ => .bind (.say rfl) fun _ => .pure _
  stops := h.stop

theorem Step.alike_of (h : Runner.Alike L run run') (s : Step Command) :
    s.Alike L run run' owner := h.all.step s

theorem stepsAlike_of (h : Runner.Alike L run run') (l : List (Step Command)) :
    stepsAlike L run run' owner l := h.all.steps l

theorem Step.exit_alike (s : Step Command) (cue : Cue) (h : s.Alike L run run' owner) :
    Play.Alike L (s.exit run cue) (s.exit run' (L.cue cue)) := by
  cases s with
  | probe probe script => exact .common rfl
  | custom onEnter onTick onExit script => exact .onStage h.2.2
  | _ => exact .pure ()

mutual

theorem Step.enter_alike : (s : Step Command) → (cue : Cue) → L.own cue.site →
    s.Alike L run run' owner → Play.Alike L (s.enter run cue) (s.enter run' (L.cue cue))
  | .wait _, _, _, _ => .write _
  | .frames _, _, _, _ => .write _
  | .tween t, _, _, _ => t.enter_alike
  | .await _ _ _, _, _, _ => .change _
  | .barrier barrier expected, cue, _, _ => Simple.arrive_alike cue.owner barrier expected
  | .probe _ _, _, _, _ => .common rfl
  | .choose _ _ _, _, hc, h => ChoiceProgress.enter_alike hc h.1
  | .bounded _ _ _, _, _, _ => .change _
  | .retry _ _, _, _, _ => .change _
  | .group _, _, _, _ => .change _
  | .parallel _ steps, cue, hc, h => enterLanes_alike steps cue 0 hc h
  | .custom _ _ _ _, _, _, h => .onStage h.1
  | .publish _, _, _, _ => .pure ()
  | .invoke _ _, _, _, _ => .pure ()
  | .component _ _ _, _, _, _ => .pure ()
  | .call _, _, _, _ => .pure ()
  | .startSequence _, _, _, _ => .pure ()
  | .stopSequence _, _, _, _ => .pure ()

theorem enterLanes_alike : (l : List (Step Command)) → (cue : Cue) → (index : Nat) →
    L.own cue.site → stepsAlike L run run' owner l →
    Play.Alike L (enterLanes run l cue index) (enterLanes run' l (L.cue cue) index)
  | [], _, _, _, _ => .pure ()
  | s :: rest, cue, index, hc, h => by
    obtain ⟨hown, hcue⟩ := L.cue_child hc index
    rw [enterLanes, enterLanes, ← hcue]
    exact .bind (.first (Lane.enter_alike hown (Step.enter_alike s (cue.child index) hown h.1)))
      fun _ => .second (enterLanes_alike rest cue (index + 1) hc h.2)

end

theorem exitNth_alike : (l : List (Step Command)) → (cue : Cue) → (n : Nat) → L.own cue.site →
    stepsAlike L run run' owner l →
    Play.Alike L (exitNth run l cue n) (exitNth run' l (L.cue cue) n)
  | [], _, _, _, _ => .pure ()
  | s :: _, cue, 0, hc, h => .first (Cue.exit_alike hc (Step.exit_alike s cue h.1))
  | _ :: rest, cue, n + 1, hc, h => .second (exitNth_alike rest cue n hc h.2)

/-- The children of a list, each exited at its own site. -/
theorem exitChild_alike (l : List (Step Command)) (cue : Cue) (hc : L.own cue.site)
    (h : stepsAlike L run run' owner l) (i : Nat) :
    Play.Alike L (exitNth run l (cue.child i) i) (exitNth run' l ((L.cue cue).child i) i) := by
  obtain ⟨hown, hcue⟩ := L.cue_child hc i
  rw [← hcue]
  exact exitNth_alike l (cue.child i) i hown h

variable {dt : Float32}

mutual

theorem Step.tick_alike : (s : Step Command) → (cue : Cue) → L.own cue.site → cue.owner = owner →
    s.Alike L run run' owner → Play.Alike L (s.tick run dt cue) (s.tick run' dt (L.cue cue))
  | .wait seconds, _, _, _, _ => Simple.wait_alike seconds dt
  | .frames count, _, _, _, _ => Simple.frames_alike count
  | .publish event, _, _, _, _ => .bind (.onStage (Simple.publish_alike event)) fun _ => .pure _
  | .invoke system command, cue, _, _, _ =>
    .onStage (Simple.invoke_alike cue.owner system command)
  | .component _ component enabled, cue, _, _, _ => .bind .read fun (entity : EntityId) =>
      .onStage (Simple.component_alike cue.owner entity component enabled)
  | .call _, _, _, _, h => .bind (.onStage h) fun _ => .pure _
  | .startSequence target, cue, _, ho, h => by
    have hstart : Act.Alike L (startAnother run cue.owner target)
        (startAnother run' cue.owner target) := by
      rw [ho]
      exact h
    exact .onStage hstart
  | .stopSequence _, _, _, _, h => .bind (.onStage h) fun _ => .pure _
  | .tween t, cue, _, _, _ => t.tick_alike cue.owner dt
  | .await _ limit policy, _, hc, _, h => Simple.await_alike hc h limit policy dt
  | .barrier barrier expected, cue, _, _, _ => Simple.barrier_alike cue.owner barrier expected dt
  | .probe probe script, cue, _, _, _ =>
    Simple.scriptedTick_alike (some probe) cue.owner script dt
  | .custom _ _ _ script, cue, _, _, h => .bind (.onStage h.2.1) fun _ =>
      Simple.scriptedTick_alike none cue.owner script dt
  | .choose _ yes no, cue, hc, ho, h => by
    have hyes : ∀ i fresh, Play.Alike L (driveNth run dt yes (cue.child i) i i fresh)
        (driveNth run' dt yes ((L.cue cue).child i) i i fresh) := by
      intro i fresh
      obtain ⟨hown, hcue⟩ := L.cue_child hc i
      rw [← hcue]
      exact driveNth_alike yes (cue.child i) i i fresh hown ho h.2.1
    have hno : ∀ i fresh, Play.Alike L (driveNth run dt no (cue.otherwise i) i i fresh)
        (driveNth run' dt no ((L.cue cue).otherwise i) i i fresh) := by
      intro i fresh
      obtain ⟨hown, hcue⟩ := L.cue_otherwise hc i
      rw [← hcue]
      exact driveNth_alike no (cue.otherwise i) i i fresh hown ho h.2.2
    rw [Step.tick, Step.tick]
    exact ChoiceProgress.tick_alike (Track.tick_alike hyes) (Track.tick_alike hno)
  | .bounded _ _ steps, cue, hc, ho, h => by
    rw [Step.tick, Step.tick]
    exact BoundedProgress.tick_alike (Track.tick_alike (driveChild_alike steps cue hc ho h))
      (Track.cancel_alike (exitChild_alike steps cue hc h))
  | .retry _ steps, cue, hc, ho, h => by
    rw [Step.tick, Step.tick]
    exact RetryProgress.tick_alike (Track.tick_alike (driveChild_alike steps cue hc ho h))
  | .group steps, cue, hc, ho, h => by
    rw [Step.tick, Step.tick]
    exact Track.tick_alike (driveChild_alike steps cue hc ho h)
  | .parallel mode steps, cue, hc, ho, h => .bind (tickLanes_alike steps cue 0 hc ho h) fun _ =>
      .bind .read fun _ => mode.conclude_alike cue.owner _ _

theorem driveNth_alike : (l : List (Step Command)) → (cue : Cue) → (index n : Nat) →
    (fresh : Bool) → L.own cue.site → cue.owner = owner → stepsAlike L run run' owner l →
    Play.Alike L (driveNth run dt l cue index n fresh)
      (driveNth run' dt l (L.cue cue) index n fresh)
  | [], _, _, _, _, _, _, _ => .pure _
  | s :: _, cue, _, 0, _, hc, ho, h => .first (Cue.drive_alike hc
      (fun _ _ hst => L.note hst rfl) (fun _ _ _ hst => L.note hst rfl)
      (Step.enter_alike s cue hc h.1) (Step.tick_alike s cue hc ho h.1)
      (Step.exit_alike s cue h.1))
  | _ :: rest, cue, index, n + 1, fresh, hc, ho, h =>
    .second (driveNth_alike rest cue index n fresh hc ho h.2)

/-- The children of a list, each driven at its own site. -/
theorem driveChild_alike (l : List (Step Command)) (cue : Cue) (hc : L.own cue.site)
    (ho : cue.owner = owner) (h : stepsAlike L run run' owner l) (i : Nat) (fresh : Bool) :
    Play.Alike L (driveNth run dt l (cue.child i) i i fresh)
      (driveNth run' dt l ((L.cue cue).child i) i i fresh) := by
  obtain ⟨hown, hcue⟩ := L.cue_child hc i
  rw [← hcue]
  exact driveNth_alike l (cue.child i) i i fresh hown ho h

theorem tickLanes_alike : (l : List (Step Command)) → (cue : Cue) → (index : Nat) →
    L.own cue.site → cue.owner = owner → stepsAlike L run run' owner l →
    Play.Alike L (tickLanes run dt l cue index) (tickLanes run' dt l (L.cue cue) index)
  | [], _, _, _, _, _ => .pure _
  | s :: rest, cue, index, hc, ho, h => by
    obtain ⟨hown, hcue⟩ := L.cue_child hc index
    rw [tickLanes, tickLanes, ← hcue]
    exact .bind (.first (Lane.tick_alike hown (Step.tick_alike s (cue.child index) hown ho h.1)
      (Step.exit_alike s (cue.child index) h.1))) fun _ =>
        .bind (.second (tickLanes_alike rest cue (index + 1) hc ho h.2)) fun _ => .pure _

end

end

end Sequencer
