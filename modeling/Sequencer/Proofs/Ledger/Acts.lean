import Sequencer.Proofs.Ledger

/-!
# The books under the operations on sequences

Every operation by name, and every effect on the world, keeps the books as a ledger says, if the
callbacks that it runs do.
-/

set_option autoImplicit false

namespace Sequencer

namespace Ledger

variable {B : BarrierFact} {R : Bool → Stage → Stage → Prop} (L : Ledger B R) {run : Runner}
  {α : Type}

include L

/-! The life of a sequence -/

theorem onNamed {name : String} {absent : α} {act : Nat → Act α} (h : ∀ id, (act id).Obeys B R) :
    (Conductor.onNamed name absent act).Obeys B R := by
  have hlocate : (Conductor.locate name).Obeys B R := by
    refine L.bind (L.read _) fun r => ?_
    cases r with
    | some id => exact L.pure _
    | none => exact L.bind (L.say _) fun _ => L.pure _
  refine L.bind hlocate fun r => ?_
  cases r with
  | some id => exact h id
  | none => exact L.pure absent

theorem enroll {q : Sequence} (hq : ∀ b, q.Holds B b) : (Conductor.enroll q).Obeys B R :=
  L.bind (L.read _) fun _ => ite (L.pure _) <| L.bind (L.say _) fun _ =>
    L.bind (fun s h => L.fair_enroll h (hq s.barriers)) fun _ => L.pure _

theorem register (o : Outline Command) : (Conductor.register o).Obeys B R :=
  L.bind (L.read _) fun h => L.enroll fun b => L.build h.resolve b o

theorem notify (hrun : run.Obeys B R) (id : Nat) (hook : Hook) :
    (Conductor.notify run id hook).Obeys B R :=
  L.bind (L.read _) fun _ => L.bind (L.noteAct rfl) fun _ => L.performAll hrun _

theorem failures (id index : Nat) (l : List Validator) :
    (Conductor.failures id index l).Obeys B R := by
  induction l generalizing index with
  | nil => exact L.pure []
  | cons v rest ih =>
    exact L.bind (L.ask _ _ _ _) fun ok => L.bind (ih (index + 1)) fun later => L.pure _

theorem launch (id : Nat) : (Conductor.launch id).Obeys B R := by
  have hadmitted : ∀ guard, (Conductor.admitted id guard).Obeys B R := by
    intro guard
    cases guard with
    | none => exact L.pure true
    | some g => exact L.ask _ _ _ g
  refine L.bind (L.read _) fun q => ite (L.bind (L.say _) fun _ => L.pure _) ?_
  refine L.bind (hadmitted q.guard) fun _ => ite (L.bind (L.say _) fun _ => L.pure _) ?_
  refine L.bind (L.modify id fun _ => rfl) fun _ =>
    L.bind (L.failures id 0 q.validators) fun failed => ite ?_ (L.pure _)
  exact L.bind (L.modify id fun _ => rfl) fun _ => L.bind (L.say _) fun _ =>
    L.bind (L.noteAct rfl) fun _ => L.bind (L.noteAct rfl) fun _ => L.pure _

theorem start (hrun : run.Obeys B R) (name : String) : (Conductor.start run name).Obeys B R := by
  refine L.onNamed fun id => L.bind (L.launch id) fun r => ?_
  split
  · exact L.bind (L.enlist id) fun _ => L.bind (L.notify hrun id .started) fun _ => L.pure _
  · exact L.pure _

theorem breakOff (hrun : run.Obeys B R) (id : Nat) : (Conductor.breakOff run id).Obeys B R :=
  L.bind (L.read _) fun _ => ite
    (L.bind (L.modify id fun _ => rfl) fun _ => L.bind (L.say _) fun _ =>
      L.bind (L.notify hrun id .stopped) fun _ => L.pure _)
    (L.pure _)

theorem stop (hrun : run.Obeys B R) (name : String) : (Conductor.stop run name).Obeys B R :=
  L.onNamed fun id => L.bind (L.breakOff hrun id) fun _ => L.bind (L.read _) fun _ =>
    L.bind (L.noteAct rfl) fun _ => L.bind (L.delist id) fun _ => L.pure _

theorem finish (hrun : run.Obeys B R) (id : Nat) : (Conductor.finish run id).Obeys B R :=
  L.bind (L.modify id fun _ => rfl) fun _ => L.bind (L.read _) fun _ => L.bind (L.say _) fun _ =>
    L.notify hrun id .completed

theorem setPaused (name : String) (paused : Bool → Bool) :
    (Conductor.setPaused name paused).Obeys B R :=
  L.onNamed fun id => L.bind (L.modify id fun _ => rfl) fun _ => L.pure _

theorem reset (name : String) : (Conductor.reset name).Obeys B R :=
  L.onNamed fun id => L.bind (L.modify id fun _ => rfl) fun _ => L.bind (L.noteAct rfl) fun _ =>
    L.pure _

theorem remove (hrun : run.Obeys B R) (name : String) : (Conductor.remove run name).Obeys B R := by
  refine L.bind (L.read _) fun r => ?_
  cases r with
  | none => exact L.pure _
  | some id =>
    have hunregister : (Act.change (·.unregister name)).Obeys B R :=
      L.changeSame (fun _ => rfl) (fun _ => rfl) (fun _ => rfl) fun _ => rfl
    exact L.bind hunregister fun _ => L.bind (L.breakOff hrun id) fun _ =>
      L.bind (L.delist id) fun _ => L.bind (L.say _) fun _ => L.pure _

theorem capture (name : String) : (Conductor.capture name).Obeys B R :=
  L.onNamed fun _ => L.bind (L.read _) fun _ => L.pure _

theorem restore (b : Bookmark) : (Conductor.restore b).Obeys B R :=
  L.onNamed fun id => L.bind (L.read _) fun _ => L.bind (L.modify id fun _ => rfl) fun _ =>
    L.bind (L.noteAct rfl) fun _ => L.bind (L.read _) fun _ => L.bind (L.noteAct rfl) fun _ =>
      L.bind (L.enlist id) fun _ => L.bind (L.read _) fun _ => L.bind (L.say _) fun _ => L.pure _

theorem startAnother (hrun : run.Obeys B R) (owner target : String) :
    (startAnother run owner target).Obeys B R := by
  refine L.bind (L.start hrun target) fun r => ?_
  cases r with
  | ok started => exact L.pure _
  | error why => exact L.bind (L.say _) fun _ => L.pure _

/-! Effects on the world -/

theorem publish (e : Event) : (Simple.publish e).Obeys B R :=
  L.bind (L.read _) fun _ => ite (L.pure ()) <|
    L.bind (L.noteAct rfl) fun _ =>
      L.changeSame (fun _ => rfl) (fun _ => rfl) (fun _ => rfl) fun _ => rfl

theorem invokeSystem (system : String) (command : Instruction) :
    (Simple.invokeSystem system command).Obeys B R :=
  L.bind (L.inScene _) fun _ => L.bind (L.noteAct rfl) fun _ => L.pure _

theorem setComponent (id : EntityId) (component : String) (enabled : Bool) :
    (Simple.setComponent id component enabled).Obeys B R :=
  L.bind (L.inScene _) fun _ => L.bind (L.noteAct rfl) fun _ => L.pure _

theorem setPose (id : EntityId) (t : Pose) : (Simple.setPose id t).Obeys B R :=
  L.bind (L.read _) fun _ => ite
    (L.bind (L.pure false) fun _ => L.bind (L.noteAct rfl) fun _ => L.pure _)
    (L.bind (L.inScene _) fun _ => L.bind (L.noteAct rfl) fun _ => L.pure _)

theorem invoke (owner system : String) (command : Instruction) :
    (Simple.invoke owner system command).Obeys B R :=
  L.bind (L.invokeSystem system command) fun _ => ite (L.bind (L.say _) fun _ => L.pure _)
    (L.pure _)

theorem component (owner : String) (id : EntityId) (name : String) (enabled : Bool) :
    (Simple.component owner id name enabled).Obeys B R :=
  L.bind (L.setComponent id name enabled) fun _ => ite (L.bind (L.say _) fun _ => L.pure _)
    (L.pure _)

theorem arriveAct (barrier : String) : (Act.change (·.arrive barrier)).Obeys B R :=
  fun s h => L.fair_of_books h (later_arrive s barrier) rfl rfl (L.arrive s barrier)

theorem resolved (label : String) : (resolved label).Obeys B R :=
  L.bind (L.read _) fun _ => L.pure _

theorem apply (c : Change) : c.apply.Obeys B R := by
  cases c with
  | engine frame elapsed timeScale => exact L.bind (L.onHost _) fun _ => L.pure _
  | flag name value => exact L.bind (L.onHost _) fun _ => L.pure _
  | count name amount => exact L.bind (L.read _) fun _ => L.bind (L.onHost _) fun _ => L.pure _
  | publish event => exact L.bind (L.publish event) fun _ => L.pure _
  | takeEvents => exact L.bind (L.read _) fun _ => L.bind (L.onHost _) fun _ => L.pure _
  | addSystem name => exact L.bind (L.inScene _) fun _ => L.pure _
  | invoke system command => exact L.bind (L.invokeSystem system command) fun _ => L.pure _
  | spawn label pose => exact L.bind (L.inScene _) fun _ => L.bind (L.onHost _) fun _ => L.pure _
  | despawn label => exact L.bind (L.resolved label) fun _ => L.bind (L.inScene _) fun _ => L.pure _
  | addComponent label component enabled =>
    exact L.bind (L.resolved label) fun _ => L.bind (L.inScene _) fun _ => L.pure _
  | setComponent label component enabled =>
    exact L.bind (L.resolved label) fun id =>
      L.bind (L.setComponent id component enabled) fun _ => L.pure _
  | setPose label pose =>
    exact L.bind (L.resolved label) fun id => L.bind (L.setPose id pose) fun _ => L.pure _
  | lock label => exact L.bind (L.resolved label) fun _ => L.bind (L.onHost _) fun _ => L.pure _
  | arrive barrier =>
    exact L.bind (L.arriveAct barrier) fun _ => L.bind (L.read _) fun _ => L.pure _

end Ledger

end Sequencer
