import Sequencer.Proofs.Course.Lifecycle

/-!
# Courses of steps

By recursion on its tree, a step that is entered or ticked follows a course that calls for itself
only steps below its own site.
-/

set_option autoImplicit false

namespace Sequencer

open Site (Nowhere Within Below From)

namespace Play.Follows

variable {π σ α β : Type} {own own' : Site → Prop}

theorem of_remarks {play : Play π α} (h : play.Remarks) : play.Follows own :=
  fun x => .remark _ (h x)

theorem pure (a : α) : (pure a : Play π α).Follows own := of_remarks (.pure a)

theorem read : (Play.read (π := π)).Follows own := of_remarks .read

theorem change (f : π → π) : (Play.change f).Follows own := of_remarks (.change f)

theorem say (n : Notice) : (Play.say n : Play π Unit).Follows own := of_remarks (.say n)

theorem onStage {act : Act α} (h : act.Follows own) : (Play.onStage act : Play π α).Follows own :=
  fun x => h x.2

theorem part {get : σ → π} {put : π → σ → σ} {play : Play π α} (h : play.Follows own) :
    (Play.part get put play).Follows own := fun x => h (get x.1, x.2)

theorem first {play : Play π α} (h : play.Follows own) :
    (Play.first play : Play (π × σ) α).Follows own := part h

theorem second {play : Play π α} (h : play.Follows own) :
    (Play.second play : Play (σ × π) α).Follows own := part h

theorem widen {play : Play π α} (h : play.Follows own) (hw : ∀ σ, own σ → own' σ) :
    play.Follows own' := fun x => (h x).widen fun σ hσ => .inl (hw σ hσ)

theorem bind {x : Play π α} {f : α → Play π β} (hx : x.Follows own)
    (hf : ∀ a, (f a).Follows own) : (x >>= f).Follows own := by
  intro s
  have h := hx s
  rw [Play.bind_apply]
  rcases hs : x s with ⟨a | a, t⟩ <;> rw [hs] at h
  · exact h
  · exact h.then (hf a t)

theorem ite {c : Prop} [Decidable c] {x y : Play π α} (hx : x.Follows own) (hy : y.Follows own) :
    (if c then x else y).Follows own := by
  split
  · exact hx
  · exact hy

end Play.Follows

namespace Cue

variable {π : Type} (c : Cue)

theorem note_called_follows (call : Call) :
    (Play.note (.called c.site call) : Play π Unit).Follows (Within c.site) :=
  fun x => .called x.2 call (.inl .here)

theorem note_returned_follows (r : Option Status) :
    (Play.note (.returned c.site r) : Play π Unit).Follows (Within c.site) :=
  fun x => .returned x.2 r (.inl .here)

variable {c}

theorem enter_follows {body : Play π Unit} (h : body.Follows (Below c.site)) :
    (c.enter body).Follows (Within c.site) :=
  .bind (c.note_called_follows _) fun _ => .bind (h.widen fun _ => Below.within) fun _ =>
    c.note_returned_follows _

theorem tick_follows {dt : Float32} {body : Play π Status} (h : body.Follows (Below c.site)) :
    (c.tick dt body).Follows (Within c.site) :=
  .bind (c.note_called_follows _) fun _ => .bind (h.widen fun _ => Below.within) fun _ =>
    .bind (c.note_returned_follows _) fun _ => .pure _

theorem exit_follows {body : Play π Unit} (h : body.Follows (Below c.site)) :
    (c.exit body).Follows (Within c.site) :=
  .bind (c.note_called_follows _) fun _ => .bind (h.widen fun _ => Below.within) fun _ =>
    c.note_returned_follows _

theorem openStep_follows {source : Source} {label : String} {index : Nat} {fresh : Bool}
    {enter : Play π Unit} (h : enter.Follows (Below c.site)) :
    (c.openStep source label index fresh enter).Follows (Within c.site) := by
  refine .ite (.bind (.of_remarks .settings) fun s => .ite ?_ ?_) (.pure ())
  · exact .bind (.say _) fun _ => enter_follows h
  · exact enter_follows h

theorem closeStep_follows {source : Source} {label : String} {index : Nat} {status : Status}
    {exit : Play π Unit} (h : exit.Follows (Below c.site)) :
    (c.closeStep source label index status exit).Follows (Within c.site) :=
  .ite (.bind (exit_follows h) fun _ => .bind (.of_remarks .settings) fun _ =>
    .ite (.say _) (.pure ())) (.pure ())

theorem tickStep_follows {source : Source} {label : String} {index : Nat} {dt : Float32}
    {exit : Play π Unit} {tick : Play π Status} (ht : tick.Follows (Below c.site))
    (hx : exit.Follows (Below c.site)) :
    (c.tickStep source label index dt tick exit).Follows (Within c.site) :=
  .bind (tick_follows ht) fun _ => .bind (closeStep_follows hx) fun _ => .pure _

theorem drive_follows {source : Source} {label : String} {index : Nat} {dt : Float32}
    {fresh : Bool} {enter exit : Play π Unit} {tick : Play π Status}
    (he : enter.Follows (Below c.site)) (ht : tick.Follows (Below c.site))
    (hx : exit.Follows (Below c.site)) :
    (c.drive source label index dt fresh enter tick exit).Follows (Within c.site) :=
  .bind (openStep_follows he) fun _ => tickStep_follows ht hx

end Cue

namespace Track

variable {π : Type} {own : Site → Prop}

theorem tick_follows {length : Nat} {onFailure : OnFailure} {drive : Nat → Bool → Play π Status}
    (h : ∀ i fresh, (drive i fresh).Follows own) :
    (Track.tick length onFailure drive).Follows own := by
  refine .bind .read fun t => .ite (.bind (.change _) fun _ => .bind (.part (h _ _)) fun status =>
    .ite (.pure _) ?_) (.pure _)
  exact .bind (.change _) fun _ => .ite (.pure _) (.pure _)

theorem cancel_follows {length : Nat} {exit : Nat → Play π Unit} (h : ∀ i, (exit i).Follows own) :
    (Track.cancel length exit).Follows own :=
  .bind .read fun _ => .ite (.bind (.part (h _)) fun _ => .change _) (.change _)

end Track

section

variable {π ρ : Type} {own : Site → Prop} {run : Runner}

theorem Simple.await_follows (hrun : run.Follows) (cue : Cue) (question : Question Command)
    (limit : Option Float32) (policy : Expiry) (dt : Float32) :
    (Simple.await run cue question limit policy dt).Follows own := by
  refine .bind (.change _) fun _ => .bind .read fun _ =>
    .bind (.onStage (inquire_follows hrun _ _ _ _)) fun _ => .ite (.pure _) ?_
  refine .bind .read fun _ => .bind (.change _) fun _ => ?_
  cases limit with
  | none => exact .pure _
  | some bound => exact .ite (.bind (.say _) fun _ => .pure _) (.pure _)

theorem ChoiceProgress.enter_follows (hrun : run.Follows) (cue : Cue)
    (question : Question Command) :
    (ChoiceProgress.enter run cue question : Play (ChoiceProgress π ρ) Unit).Follows own :=
  .bind (.change _) fun _ => .bind .read fun _ =>
    .bind (.onStage (inquire_follows hrun _ _ _ _)) fun _ => .ite (.change _) (.change _)

theorem ChoiceProgress.tick_follows {yes : Play (Track π) Status} {no : Play (Track ρ) Status}
    (hy : yes.Follows own) (hn : no.Follows own) : (ChoiceProgress.tick yes no).Follows own :=
  .bind .read fun _ => .ite (.part hn) (.part hy)

theorem BoundedProgress.tick_follows {owner : String} {seconds : Float32} {policy : Expiry}
    {dt : Float32} {body : Play (Track π) Status} {cancel : Play (Track π) Unit}
    (hb : body.Follows own) (hc : cancel.Follows own) :
    (BoundedProgress.tick owner seconds policy dt body cancel).Follows own :=
  .bind (.change _) fun _ => .bind .read fun _ => .ite
    (.bind (.say _) fun _ => .bind (.part hc) fun _ => .pure _) (.part hb)

theorem RetryProgress.tick_follows {owner : String} {attempts : UInt32}
    {body : Play (Track π) Status} (h : body.Follows own) :
    (RetryProgress.tick owner attempts body).Follows own := by
  refine .bind (.part h) fun status => ?_
  split
  · exact .bind (.change _) fun _ => .bind .read fun _ => .ite
      (.bind (.say _) fun _ => .pure _) (.bind (.change _) fun _ => .pure _)
  · exact .pure _

theorem Lane.enter_follows {cue : Cue} {body : Play π Unit} (h : body.Follows (Below cue.site)) :
    (Lane.enter cue body).Follows (Within cue.site) :=
  .bind (.change _) fun _ => .part (Cue.enter_follows h)

theorem Lane.tick_follows {cue : Cue} {dt : Float32} {body : Play π Status} {exit : Play π Unit}
    (h : body.Follows (Below cue.site)) (hx : exit.Follows (Below cue.site)) :
    (Lane.tick cue dt body exit).Follows (Within cue.site) :=
  .bind .read fun _ => .ite (.pure _) (.bind (.part (Cue.tick_follows h)) fun _ => .ite (.pure _)
    (.bind (.part (Cue.exit_follows hx)) fun _ => .bind (.change _) fun _ => .pure _))

end

theorem below_of_within_child {c : Cue} {i : Nat} (σ : Site) :
    Within (c.child i).site σ → Below c.site σ := Within.below_of_child

theorem below_of_within_otherwise {c : Cue} {i : Nat} (σ : Site) :
    Within (c.otherwise i).site σ → Below c.site σ := Within.below_of_otherwise

section

variable {run : Runner} {dt : Float32}

theorem Step.exit_follows {own : Site → Prop} (hrun : run.Follows) (s : Step Command) (cue : Cue) :
    (s.exit run cue).Follows own := by
  unfold Step.exit
  split
  · exact .of_remarks (.note rfl)
  · exact .onStage (performAll_follows hrun _)
  · exact .pure ()

def Step.isLeaf {κ : Type} : Step κ → Bool
  | .choose _ _ _ => false
  | .bounded _ _ _ => false
  | .retry _ _ => false
  | .group _ => false
  | .parallel _ _ => false
  | _ => true

theorem Step.enter_follows_leaf {own : Site → Prop} (hrun : run.Follows) :
    (s : Step Command) → s.isLeaf = true → (cue : Cue) → (s.enter run cue).Follows own
  | .wait _, _, _ => .of_remarks (.write _)
  | .frames _, _, _ => .of_remarks (.write _)
  | .tween t, _, _ => .of_remarks t.enter_remarks
  | .await _ _ _, _, _ => .change _
  | .barrier name expected, _, cue => .of_remarks (Simple.arrive_remarks cue.owner name expected)
  | .probe _ _, _, _ => .of_remarks (.note rfl)
  | .publish _, _, _ => .pure ()
  | .invoke _ _, _, _ => .pure ()
  | .component _ _ _, _, _ => .pure ()
  | .call _, _, _ => .pure ()
  | .startSequence _, _, _ => .pure ()
  | .stopSequence _, _, _ => .pure ()
  | .custom onEnter _ _ _, _, _ => .onStage (performAll_follows hrun onEnter)

mutual

theorem Step.enter_follows (hrun : run.Follows) : (s : Step Command) → (cue : Cue) →
    (s.enter run cue).Follows (Below cue.site)
  | .choose question _ _, cue => ChoiceProgress.enter_follows hrun cue question
  | .bounded _ _ _, _ => .change _
  | .retry _ _, _ => .change _
  | .group _, _ => .change _
  | .parallel _ steps, cue => (enterLanes_follows hrun steps cue 0).widen fun _ => From.below
  | .wait seconds, cue => Step.enter_follows_leaf hrun (.wait seconds) rfl cue
  | .frames count, cue => Step.enter_follows_leaf hrun (.frames count) rfl cue
  | .tween t, cue => Step.enter_follows_leaf hrun (.tween t) rfl cue
  | .await question limit policy, cue =>
    Step.enter_follows_leaf hrun (.await question limit policy) rfl cue
  | .barrier name expected, cue => Step.enter_follows_leaf hrun (.barrier name expected) rfl cue
  | .probe name script, cue => Step.enter_follows_leaf hrun (.probe name script) rfl cue
  | .publish event, cue => Step.enter_follows_leaf hrun (.publish event) rfl cue
  | .invoke system command, cue => Step.enter_follows_leaf hrun (.invoke system command) rfl cue
  | .component entity name enabled, cue =>
    Step.enter_follows_leaf hrun (.component entity name enabled) rfl cue
  | .call commands, cue => Step.enter_follows_leaf hrun (.call commands) rfl cue
  | .startSequence target, cue => Step.enter_follows_leaf hrun (.startSequence target) rfl cue
  | .stopSequence target, cue => Step.enter_follows_leaf hrun (.stopSequence target) rfl cue
  | .custom onEnter onTick onExit script, cue =>
    Step.enter_follows_leaf hrun (.custom onEnter onTick onExit script) rfl cue

theorem enterLanes_follows (hrun : run.Follows) : (l : List (Step Command)) → (cue : Cue) →
    (index : Nat) → (enterLanes run l cue index).Follows (From cue.site index)
  | [], _, _ => .pure ()
  | s :: rest, cue, index =>
    .bind (.first ((Lane.enter_follows (Step.enter_follows hrun s _)).widen fun _ => From.of_child))
      fun _ => .second ((enterLanes_follows hrun rest cue (index + 1)).widen fun _ => From.of_succ)

end

theorem exitNth_follows (hrun : run.Follows) : (l : List (Step Command)) → (cue : Cue) → (n : Nat) →
    (exitNth run l cue n).Follows (Within cue.site)
  | [], _, _ => .pure ()
  | s :: _, cue, 0 => .first (Cue.exit_follows (Step.exit_follows hrun s cue))
  | _ :: rest, cue, n + 1 => .second (exitNth_follows hrun rest cue n)

theorem startAnother_follows {own : Site → Prop} (hrun : run.Follows) (owner target : String) :
    (startAnother run owner target).Follows own := by
  refine .bind (Conductor.start_follows hrun target) fun r => ?_
  cases r with
  | ok started => exact .pure _
  | error why => exact .bind (.of_remarks (.say _)) fun _ => .pure _

theorem Step.tick_follows_leaf {own : Site → Prop} (hrun : run.Follows) :
    (s : Step Command) → s.isLeaf = true → (cue : Cue) → (s.tick run dt cue).Follows own
  | .wait seconds, _, _ => .of_remarks (Simple.wait_remarks seconds dt)
  | .frames count, _, _ => .of_remarks (Simple.frames_remarks count)
  | .publish event, _, _ =>
    .of_remarks (.bind (.onStage (Simple.publish_remarks event)) fun _ => .pure _)
  | .invoke system command, _, cue =>
    .of_remarks (.onStage (Simple.invoke_remarks cue.owner system command))
  | .component _ name enabled, _, cue => .of_remarks (.bind .read fun (id : EntityId) =>
      .onStage (Simple.component_remarks cue.owner id name enabled))
  | .call commands, _, _ => .bind (.onStage (performAll_follows hrun commands)) fun _ => .pure _
  | .startSequence target, _, cue => .onStage (startAnother_follows hrun cue.owner target)
  | .stopSequence target, _, _ =>
    .bind (.onStage (Conductor.stop_follows hrun target)) fun _ => .pure _
  | .tween t, _, cue => .of_remarks (t.tick_remarks cue.owner dt)
  | .await question limit policy, _, cue =>
    Simple.await_follows hrun cue question limit policy dt
  | .barrier name expected, _, cue =>
    .of_remarks (Simple.barrier_remarks cue.owner name expected dt)
  | .probe id script, _, cue =>
    .of_remarks (Simple.scriptedTick_remarks (some id) cue.owner script dt)
  | .custom _ onTick _ script, _, cue => .bind (.onStage (performAll_follows hrun onTick)) fun _ =>
      .of_remarks (Simple.scriptedTick_remarks none cue.owner script dt)

mutual

theorem Step.tick_follows (hrun : run.Follows) : (s : Step Command) → (cue : Cue) →
    (s.tick run dt cue).Follows (Below cue.site)
  | .choose _ yes no, cue => ChoiceProgress.tick_follows
      (Track.tick_follows fun i fresh =>
        (driveNth_follows hrun yes (cue.child i) i i fresh).widen below_of_within_child)
      (Track.tick_follows fun i fresh =>
        (driveNth_follows hrun no (cue.otherwise i) i i fresh).widen below_of_within_otherwise)
  | .bounded _ _ steps, cue => BoundedProgress.tick_follows
      (Track.tick_follows fun i fresh =>
        (driveNth_follows hrun steps (cue.child i) i i fresh).widen below_of_within_child)
      (Track.cancel_follows fun i =>
        (exitNth_follows hrun steps (cue.child i) i).widen below_of_within_child)
  | .retry _ steps, cue => RetryProgress.tick_follows
      (Track.tick_follows fun i fresh =>
        (driveNth_follows hrun steps (cue.child i) i i fresh).widen below_of_within_child)
  | .group steps, cue => by
    rw [Step.tick]
    exact Track.tick_follows fun i fresh =>
      (driveNth_follows hrun steps (cue.child i) i i fresh).widen below_of_within_child
  | .parallel mode steps, cue =>
    .bind ((tickLanes_follows hrun steps cue 0).widen fun _ => From.below) fun _ =>
      .bind .read fun _ => .of_remarks (mode.conclude_remarks cue.owner _ _)
  | .wait seconds, cue => Step.tick_follows_leaf hrun (.wait seconds) rfl cue
  | .frames count, cue => Step.tick_follows_leaf hrun (.frames count) rfl cue
  | .tween t, cue => Step.tick_follows_leaf hrun (.tween t) rfl cue
  | .await question limit policy, cue =>
    Step.tick_follows_leaf hrun (.await question limit policy) rfl cue
  | .barrier name expected, cue => Step.tick_follows_leaf hrun (.barrier name expected) rfl cue
  | .probe name script, cue => Step.tick_follows_leaf hrun (.probe name script) rfl cue
  | .publish event, cue => Step.tick_follows_leaf hrun (.publish event) rfl cue
  | .invoke system command, cue => Step.tick_follows_leaf hrun (.invoke system command) rfl cue
  | .component entity name enabled, cue =>
    Step.tick_follows_leaf hrun (.component entity name enabled) rfl cue
  | .call commands, cue => Step.tick_follows_leaf hrun (.call commands) rfl cue
  | .startSequence target, cue => Step.tick_follows_leaf hrun (.startSequence target) rfl cue
  | .stopSequence target, cue => Step.tick_follows_leaf hrun (.stopSequence target) rfl cue
  | .custom onEnter onTick onExit script, cue =>
    Step.tick_follows_leaf hrun (.custom onEnter onTick onExit script) rfl cue

theorem driveNth_follows (hrun : run.Follows) : (l : List (Step Command)) → (cue : Cue) →
    (index n : Nat) → (fresh : Bool) →
    (driveNth run dt l cue index n fresh).Follows (Within cue.site)
  | [], _, _, _, _ => .pure _
  | s :: _, cue, _, 0, _ => .first (Cue.drive_follows (Step.enter_follows hrun s cue)
      (Step.tick_follows hrun s cue) (Step.exit_follows hrun s cue))
  | _ :: rest, cue, index, n + 1, fresh => .second (driveNth_follows hrun rest cue index n fresh)

theorem tickLanes_follows (hrun : run.Follows) : (l : List (Step Command)) → (cue : Cue) →
    (index : Nat) → (tickLanes run dt l cue index).Follows (From cue.site index)
  | [], _, _ => .pure _
  | s :: rest, cue, index =>
    .bind (.first ((Lane.tick_follows (Step.tick_follows hrun s _)
      (Step.exit_follows hrun s _)).widen fun _ => From.of_child)) fun _ =>
        .bind (.second ((tickLanes_follows hrun rest cue (index + 1)).widen fun _ => From.of_succ))
          fun _ => .pure _

end

end

end Sequencer
