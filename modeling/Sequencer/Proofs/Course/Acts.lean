import Sequencer.Proofs.Course

/-!
# Acts that follow a course

How acts and plays are put together says how their courses are. The steps without children and
the tests of conditions only leave remarks; this is shown once and for every one of them, so that
later arguments meet only acts that call somebody back.
-/

set_option autoImplicit false

namespace Sequencer

theorem Act.bind_apply {α β : Type} (x : Act α) (f : α → Act β) (s : Stage) :
    (x >>= f) s = match x s with
      | (.ok a, t) => f a t
      | (.error e, t) => (.error e, t) := by
  show ExceptT.bind x f s = _
  simp only [ExceptT.bind, ExceptT.mk, bind, StateT.bind]
  rcases x s with ⟨a | a, t⟩ <;> rfl

theorem Play.bind_apply {π α β : Type} (x : Play π α) (f : α → Play π β) (s : π × Stage) :
    (x >>= f) s = match x s with
      | (.ok a, t) => f a t
      | (.error e, t) => (.error e, t) := by
  show ExceptT.bind x f s = _
  simp only [ExceptT.bind, ExceptT.mk, bind, StateT.bind]
  rcases x s with ⟨a | a, t⟩ <;> rfl

theorem Play.onStage_apply {π α : Type} {act : Act α} {s t : Stage} {r : Except Halt α}
    (h : act s = (r, t)) (p : π) : Play.onStage act (p, s) = (r, p, t) := by
  rw [Play.onStage, h]

/-! Acts and plays that only leave remarks -/

def Act.Remarks {α : Type} (act : Act α) : Prop := ∀ s, Aside s (act s).2

def Play.Remarks {π α : Type} (play : Play π α) : Prop := ∀ x, Aside x.2 (play x).2.2

namespace Act.Remarks

variable {α β : Type}

theorem pure (a : α) : Act.Remarks (pure a) := fun s => .refl s

theorem read (f : Stage → α) : Act.Remarks (.read f) := fun s => .refl s

theorem halt (h : Halt) : Act.Remarks (.halt h : Act α) := fun s => .refl s

theorem note {e : Entry} (he : e.isRemark = true) : Act.Remarks (.note e) := fun s => .note s he

theorem say (n : Notice) : Act.Remarks (.say n) := note rfl

theorem host (f : Stage → Host) : Act.Remarks (.change fun s => { s with host := f s }) :=
  fun s => .host s (f s)

theorem inScene (f : Scene → α × Scene) : Act.Remarks (.inScene f) := fun s => .host s _

theorem bind {x : Act α} {f : α → Act β} (hx : x.Remarks) (hf : ∀ a, (f a).Remarks) :
    (x >>= f).Remarks := by
  intro s
  have h := hx s
  rw [Act.bind_apply]
  rcases hs : x s with ⟨a | a, t⟩ <;> rw [hs] at h
  · exact h
  · exact h.trans (hf a t)

theorem ite {c : Prop} [Decidable c] {x y : Act α} (hx : x.Remarks) (hy : y.Remarks) :
    (if c then x else y).Remarks := by
  split
  · exact hx
  · exact hy

end Act.Remarks

namespace Play.Remarks

variable {π σ α β : Type}

theorem pure (a : α) : Play.Remarks (pure a : Play π α) := fun x => .refl x.2

theorem read : Play.Remarks (Play.read (π := π)) := fun x => .refl x.2

theorem write (p : π) : Play.Remarks (Play.write p) := fun x => .refl x.2

theorem change (f : π → π) : Play.Remarks (Play.change f) := fun x => .refl x.2

theorem onStage {act : Act α} (h : act.Remarks) : Play.Remarks (Play.onStage act : Play π α) :=
  fun x => h x.2

theorem note {e : Entry} (he : e.isRemark = true) : Play.Remarks (Play.note e : Play π Unit) :=
  onStage (.note he)

theorem say (n : Notice) : Play.Remarks (Play.say n : Play π Unit) := note rfl

theorem settings : Play.Remarks (Play.settings : Play π Settings) := onStage (.read _)

theorem bind {x : Play π α} {f : α → Play π β} (hx : x.Remarks) (hf : ∀ a, (f a).Remarks) :
    (x >>= f).Remarks := by
  intro s
  have h := hx s
  rw [Play.bind_apply]
  rcases hs : x s with ⟨a | a, t⟩ <;> rw [hs] at h
  · exact h
  · exact h.trans (hf a t)

theorem ite {c : Prop} [Decidable c] {x y : Play π α} (hx : x.Remarks) (hy : y.Remarks) :
    (if c then x else y).Remarks := by
  split
  · exact hx
  · exact hy

end Play.Remarks

theorem ask_apply (asker : Asker) (owner : String) (polls : Nat) (c : Condition) (s : Stage) :
    ask asker owner polls c s = match c.test.eval s owner polls with
      | .ok answer => (.ok answer, s.note (.polled asker c.id answer))
      | .error h => (.error h, s) := by
  simp only [ask, Act.bind_apply, Act.read]
  rcases c.test.eval s owner polls with h | answer <;> rfl

theorem ask_remarks (asker : Asker) (owner : String) (polls : Nat) (c : Condition) :
    (ask asker owner polls c).Remarks := by
  refine .bind (.read _) fun r => ?_
  cases r with
  | ok answer => exact .bind (.note rfl) fun _ => .pure answer
  | error h => exact .halt h

theorem admitted_remarks (id : Nat) (guard : Option Condition) :
    (Conductor.admitted id guard).Remarks := by
  cases guard with
  | none => exact .pure true
  | some g => exact ask_remarks _ _ _ g

theorem failures_remarks (id index : Nat) (l : List Validator) :
    (Conductor.failures id index l).Remarks := by
  induction l generalizing index with
  | nil => exact .pure []
  | cons v rest ih =>
    refine .bind (ask_remarks _ _ _ _) fun ok => .bind (ih (index + 1)) fun later => ?_
    exact .pure _

namespace Simple

theorem publish_remarks (e : Event) : (publish e).Remarks := by
  refine .bind (.read _) fun muted => .ite (.pure ()) (.bind (.note rfl) fun _ => .host _)

theorem invokeSystem_remarks (system : String) (command : Instruction) :
    (invokeSystem system command).Remarks :=
  .bind (.inScene _) fun _ => .bind (.note rfl) fun _ => .pure _

theorem setComponent_remarks (id : EntityId) (component : String) (enabled : Bool) :
    (setComponent id component enabled).Remarks :=
  .bind (.inScene _) fun _ => .bind (.note rfl) fun _ => .pure _

theorem setPose_remarks (id : EntityId) (t : Pose) : (setPose id t).Remarks := by
  refine .bind (.read _) fun locked => .ite (.bind (.pure false) fun ok => ?_)
    (.bind (.inScene _) fun ok => ?_)
  · exact .bind (.note rfl) fun _ => .pure ok
  · exact .bind (.note rfl) fun _ => .pure ok

theorem invoke_remarks (owner system : String) (command : Instruction) :
    (invoke owner system command).Remarks :=
  .bind (invokeSystem_remarks system command) fun _ =>
    .ite (.bind (.say _) fun _ => .pure _) (.pure _)

theorem component_remarks (owner : String) (id : EntityId) (name : String) (enabled : Bool) :
    (component owner id name enabled).Remarks :=
  .bind (setComponent_remarks id name enabled) fun _ =>
    .ite (.bind (.say _) fun _ => .pure _) (.pure _)

theorem wait_remarks (seconds dt : Float32) : (wait seconds dt).Remarks :=
  .bind .read fun _ => .bind (.write _) fun _ => .pure _

theorem frames_remarks (count : UInt32) : (frames count).Remarks :=
  .bind .read fun _ => .bind (.write _) fun _ => .pure _

theorem scriptedTick_remarks (id : Option String) (owner : String) (script : List Status)
    (dt : Float32) : (scriptedTick id owner script dt).Remarks := by
  refine .bind .read fun used => .bind (.write _) fun _ => ?_
  cases id with
  | none => exact .pure _
  | some id => exact .bind (.note rfl) fun _ => .pure _

theorem arrive_remarks (owner name : String) (expected : UInt32) :
    (arrive owner name expected).Remarks :=
  .bind (.onStage fun s => .arrive s name) fun _ => .bind (.onStage (.read _)) fun _ =>
    .bind (.write _) fun _ => .say _

theorem barrier_remarks (owner name : String) (expected : UInt32) (dt : Float32) :
    (barrier owner name expected dt).Remarks :=
  .bind (.onStage (.read _)) fun _ => .bind .read fun _ => .ite
    (.bind (.write _) fun _ => .pure _)
    (.bind .settings fun _ => .bind (.write _) fun _ =>
      .ite (.bind (.say _) fun _ => .pure _) (.pure _))

end Simple

namespace Tween

theorem enter_remarks (t : Tween) : t.enter.Remarks :=
  .bind .read fun _ => .bind (.onStage (.read _)) fun _ => .write _

theorem tick_remarks (t : Tween) (owner : String) (dt : Float32) : (t.tick owner dt).Remarks := by
  refine .bind .read fun p => .bind (.onStage (.read _)) fun current => ?_
  split
  · refine .bind (.write _) fun _ => .bind (.onStage (Simple.setPose_remarks _ _)) fun _ => ?_
    exact .ite (.pure _) (.bind (.say _) fun _ => .pure _)
  · exact .bind (.say _) fun _ => .pure _

end Tween

theorem Quorum.conclude_remarks {π : Type} (mode : Quorum) (owner : String)
    (settled : List Status) (pending : Nat) :
    (mode.conclude owner settled pending : Play π Status).Remarks := by
  unfold Quorum.conclude
  split
  · exact .ite (.bind (.say _) fun _ => .pure _) (.pure _)
  · exact .pure _

end Sequencer
