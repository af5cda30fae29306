import Sequencer.Play.Step
import Sequencer.Proofs.Course.Acts
import Sequencer.Proofs.Entering.Agree

/-!
# What no call changes

Whatever calls a step gets, and whether or not they halt: its progress agrees with what it was
before on the entities that were resolved when the step was built.
-/

set_option autoImplicit false

namespace Sequencer

def Play.Keeps {π α : Type} (I : π → Prop) (x : Play π α) : Prop :=
  ∀ p s, I p → I (x (p, s)).2.1

namespace Play.Keeps

variable {π σ α β : Type} {I : π → Prop} {J : σ → Prop}

theorem any (x : Play π α) (h : ∀ p, I p) : x.Keeps I := fun _ _ _ => h _

theorem pure (a : α) : (pure a : Play π α).Keeps I := fun _ _ h => h

theorem change {f : π → π} (hf : ∀ p, I p → I (f p)) : (Play.change f).Keeps I :=
  fun p _ h => hf p h

theorem onStage (act : Act α) : (Play.onStage act : Play π α).Keeps I := fun _ _ h => h

theorem note (e : Entry) : (Play.note e : Play π Unit).Keeps I := onStage _

theorem say (n : Notice) : (Play.say n : Play π Unit).Keeps I := onStage _

theorem settings : (Play.settings : Play π Settings).Keeps I := onStage _

theorem bind {x : Play π α} {f : α → Play π β} (hx : x.Keeps I) (hf : ∀ a, (f a).Keeps I) :
    (x >>= f).Keeps I := by
  intro p s h
  have hp := hx p s h
  rw [Play.bind_apply]
  rcases hr : x (p, s) with ⟨a | a, q, t⟩ <;> rw [hr] at hp
  · exact hp
  · exact hf a q t hp

theorem readThen {f : π → Play π β} (hf : ∀ p, I p → (f p).Keeps I) :
    (Play.read >>= f).Keeps I := fun p s h => hf p h p s h

theorem write {p : π} (h : I p) : (Play.write p).Keeps I := fun _ _ _ => h

theorem ite {c : Prop} [Decidable c] {x y : Play π α} (hx : x.Keeps I) (hy : y.Keeps I) :
    (if c then x else y).Keeps I := by
  split
  · exact hx
  · exact hy

theorem part {get : σ → π} {put : π → σ → σ} {x : Play π α} (h : x.Keeps I)
    (hget : ∀ a, J a → I (get a)) (hput : ∀ a p, J a → I p → J (put p a)) :
    (Play.part get put x).Keeps J :=
  fun a s ha => hput a _ ha (h _ s (hget a ha))

theorem first {J : π × σ → Prop} {x : Play π α} (h : x.Keeps I) (hget : ∀ a, J a → I a.1)
    (hput : ∀ a p, J a → I p → J (p, a.2)) : (Play.first x).Keeps J := part h hget hput

theorem second {J : σ × π → Prop} {x : Play π α} (h : x.Keeps I) (hget : ∀ a, J a → I a.2)
    (hput : ∀ a p, J a → I p → J (a.1, p)) : (Play.second x).Keeps J := part h hget hput

end Play.Keeps

namespace Cue

variable {π : Type} {I : π → Prop} (c : Cue)

theorem enter_keeps {x : Play π Unit} (h : x.Keeps I) : (c.enter x).Keeps I :=
  .bind (.note _) fun _ => .bind h fun _ => .note _

theorem exit_keeps {x : Play π Unit} (h : x.Keeps I) : (c.exit x).Keeps I :=
  .bind (.note _) fun _ => .bind h fun _ => .note _

theorem tick_keeps {x : Play π Status} (dt : Float32) (h : x.Keeps I) : (c.tick dt x).Keeps I :=
  .bind (.note _) fun _ => .bind h fun _ => .bind (.note _) fun _ => .pure _

theorem drive_keeps {source : Source} {label : String} {index : Nat} {dt : Float32} {fresh : Bool}
    {enter exit : Play π Unit} {tick : Play π Status} (he : enter.Keeps I) (ht : tick.Keeps I)
    (hx : exit.Keeps I) : (c.drive source label index dt fresh enter tick exit).Keeps I := by
  have hopen : (c.openStep source label index fresh enter).Keeps I :=
    .ite (.bind .settings fun _ => .ite (.bind (.say _) fun _ => c.enter_keeps he)
      (c.enter_keeps he)) (.pure ())
  have hclose : ∀ status, (c.closeStep source label index status exit).Keeps I := fun _ =>
    .ite (.bind (c.exit_keeps hx) fun _ => .bind .settings fun _ => .ite (.say _) (.pure ()))
      (.pure ())
  exact .bind hopen fun _ => .bind (c.tick_keeps dt ht) fun _ => .bind (hclose _) fun _ => .pure _

end Cue

section

variable {π ρ : Type} {R : Option Nat → π → π → Prop} {S : Option Nat → ρ → ρ → Prop}

theorem Track.change_keeps {t₀ : Track π} {f : Track π → Track π}
    (hf : ∀ t, (f t).children = t.children) :
    (Play.change f).Keeps (Track.Agree R false t₀) := by
  apply Play.Keeps.change
  intro t ht
  exact ⟨nofun, by rw [hf t]; exact ht.children⟩

theorem Track.tick_keeps {length : Nat} {onFailure : OnFailure}
    {drive : Nat → Bool → Play π Status} {t₀ : Track π}
    (h : ∀ i fresh, (drive i fresh).Keeps (R none t₀.children)) :
    (Track.tick length onFailure drive).Keeps (Track.Agree R false t₀) := by
  refine .readThen fun t _ => .ite (.bind (Track.change_keeps fun _ => rfl) fun _ => ?_) (.pure _)
  have hdrive : (Track.onChildren (drive t.cursor !t.entered)).Keeps (Track.Agree R false t₀) :=
    .part (h _ _) (fun _ ht => ht.children) fun _ _ _ hp => ⟨nofun, hp⟩
  exact .bind hdrive fun status => .ite (.pure _)
    (.bind (Track.change_keeps fun _ => rfl) fun _ => .ite (.pure _) (.pure _))

theorem Track.cancel_keeps {length : Nat} {exit : Nat → Play π Unit} {t₀ : Track π}
    (h : ∀ i, (exit i).Keeps (R none t₀.children)) :
    (Track.cancel length exit).Keeps (Track.Agree R false t₀) := by
  have hexit : ∀ i, (Track.onChildren (exit i)).Keeps (Track.Agree R false t₀) :=
    fun i => .part (h i) (fun _ ht => ht.children) fun _ _ _ hp => ⟨nofun, hp⟩
  exact .readThen fun t _ => .ite (.bind (hexit _) fun _ => Track.change_keeps fun _ => rfl)
    (Track.change_keeps fun _ => rfl)

theorem ChoiceProgress.enter_keeps (run : Runner) (cue : Cue) (question : Question Command)
    (p₀ : ChoiceProgress π ρ) :
    (ChoiceProgress.enter run cue question).Keeps (ChoiceProgress.Agree R S false p₀) :=
  .bind (.change fun _ h => ⟨nofun, h.yes, h.no⟩) fun _ => .readThen fun _ _ => .bind (.onStage _)
    fun _ => .ite (.change fun _ h => ⟨nofun, ⟨nofun, h.yes.children⟩, h.no⟩)
      (.change fun _ h => ⟨nofun, h.yes, ⟨nofun, h.no.children⟩⟩)

theorem ChoiceProgress.tick_keeps {yes : Play (Track π) Status} {no : Play (Track ρ) Status}
    {p₀ : ChoiceProgress π ρ} (hy : yes.Keeps (Track.Agree R false p₀.yes))
    (hn : no.Keeps (Track.Agree S false p₀.no)) :
    (ChoiceProgress.tick yes no).Keeps (ChoiceProgress.Agree R S false p₀) :=
  .readThen fun _ _ => .ite (.part hn (fun _ h => h.no) fun _ _ h hp => ⟨nofun, h.yes, hp⟩)
    (.part hy (fun _ h => h.yes) fun _ _ h hp => ⟨nofun, hp, h.no⟩)

theorem BoundedProgress.tick_keeps {owner : String} {seconds : Float32} {policy : Expiry}
    {dt : Float32} {body : Play (Track π) Status} {cancel : Play (Track π) Unit}
    {p₀ : BoundedProgress π} (hb : body.Keeps (Track.Agree R false p₀.body))
    (hc : cancel.Keeps (Track.Agree R false p₀.body)) :
    (BoundedProgress.tick owner seconds policy dt body cancel).Keeps
      (BoundedProgress.Agree R false p₀) :=
  .bind (.change fun _ h => ⟨nofun, h.body⟩) fun _ => .readThen fun _ _ => .ite
    (.bind (.say _) fun _ =>
      .bind (.part hc (fun _ h => h.body) fun _ _ _ hp => ⟨nofun, hp⟩) fun _ => .pure _)
    (.part hb (fun _ h => h.body) fun _ _ _ hp => ⟨nofun, hp⟩)

theorem RetryProgress.tick_keeps {owner : String} {attempts : UInt32}
    {body : Play (Track π) Status} {p₀ : RetryProgress π}
    (hb : body.Keeps (Track.Agree R false p₀.body)) :
    (RetryProgress.tick owner attempts body).Keeps (RetryProgress.Agree R false p₀) := by
  refine .bind (.part hb (fun _ h => h.body) fun _ _ _ hp => ⟨nofun, hp⟩) fun status => ?_
  cases status with
  | running => exact .pure _
  | succeeded => exact .pure _
  | failed =>
    exact .bind (.change fun _ h => ⟨nofun, h.body⟩) fun _ => .readThen fun _ _ => .ite
      (.bind (.say _) fun _ => .pure _)
      (.bind (.change fun _ h => ⟨nofun, ⟨nofun, h.body.children⟩⟩) fun _ => .pure _)

theorem Quorum.conclude_keeps {I : π → Prop} (mode : Quorum) (owner : String)
    (settled : List Status) (pending : Nat) :
    (mode.conclude owner settled pending : Play π Status).Keeps I := by
  unfold Quorum.conclude
  split
  · exact .ite (.bind (.say _) fun _ => .pure _) (.pure _)
  · exact .pure _

theorem Lane.enter_keeps {R : Bool → π → π → Prop} {cue : Cue} {body : Play π Unit} {a₀ : Lane π}
    (h : body.Keeps (R false a₀.child)) :
    (Lane.enter cue body).Keeps (Lane.Agree R false a₀) :=
  .bind (.change fun _ h => ⟨nofun, h.child⟩) fun _ =>
    .part (cue.enter_keeps h) (fun _ h => h.child) fun _ _ _ hp => ⟨nofun, hp⟩

theorem Lane.tick_keeps {R : Bool → π → π → Prop} {cue : Cue} {dt : Float32}
    {body : Play π Status} {exit : Play π Unit} {a₀ : Lane π} (h : body.Keeps (R false a₀.child))
    (hx : exit.Keeps (R false a₀.child)) :
    (Lane.tick cue dt body exit).Keeps (Lane.Agree R false a₀) :=
  .readThen fun _ _ => .ite (.pure _) <|
    .bind (.part (cue.tick_keeps dt h) (fun _ h => h.child) fun _ _ _ hp => ⟨nofun, hp⟩) fun _ =>
    .ite (.pure _) <|
    .bind (.part (cue.exit_keeps hx) (fun _ h => h.child) fun _ _ _ hp => ⟨nofun, hp⟩) fun _ =>
    .bind (.change fun _ h => ⟨nofun, h.child⟩) fun _ => .pure _

end

section

variable {e : EntityId}

theorem Tween.enter_keeps (t : Tween) : t.enter.Keeps fun p => e = p.entity :=
  .readThen fun _ h => .bind (.onStage _) fun _ => .write h

theorem Tween.tick_keeps (t : Tween) (owner : String) (dt : Float32) :
    (t.tick owner dt).Keeps fun p => e = p.entity := by
  refine .readThen fun p h => .bind (.onStage _) fun current => ?_
  have hmissing : (do
      Play.say (.targetMissing owner t.target.label p.entity)
      return .failed : Play TweenProgress Status).Keeps fun p => e = p.entity :=
    .bind (.say _) fun _ => .pure _
  cases p.start with
  | none => exact hmissing
  | some start =>
    cases current with
    | none => exact hmissing
    | some current =>
      exact .bind (.write h) fun _ => .bind (.onStage _) fun _ => .ite (.pure _)
        (.bind (.say _) fun _ => .pure _)

end

section

variable (run : Runner)

theorem Step.exit_keeps (s : Step Command) (cue : Cue) (p₀ : s.Progress) :
    (s.exit run cue).Keeps (s.Agree false p₀) := by
  unfold Step.exit
  split
  · exact .note _
  · exact .onStage _
  · exact .pure ()

mutual

/-- A step that is entered keeps the entities it was built for. -/
theorem Step.enter_keeps : (s : Step Command) → (cue : Cue) → (p₀ : s.Progress) →
    (s.enter run cue).Keeps (s.Agree false p₀)
  | .wait _, _, _ => .any _ fun _ => nofun
  | .frames _, _, _ => .any _ fun _ => nofun
  | .await _ _ _, _, _ => .any _ fun _ => nofun
  | .barrier _ _, _, _ => .any _ fun _ => nofun
  | .tween t, _, _ => fun p s h => ⟨t.enter_keeps p s h.1, nofun⟩
  | .choose question _ _, cue, p₀ => ChoiceProgress.enter_keeps run cue question p₀
  | .bounded _ _ _, _, _ => .change fun _ h => ⟨nofun, ⟨nofun, h.body.children⟩⟩
  | .retry _ _, _, _ => .change fun _ h => ⟨nofun, ⟨nofun, h.body.children⟩⟩
  | .group _, _, _ => .change fun _ h => ⟨nofun, h.children⟩
  | .parallel _ steps, cue, p₀ => enterLanes_keeps steps cue 0 p₀
  | .component _ _ _, _, _ => .pure ()
  | .publish _, _, _ => .pure ()
  | .invoke _ _, _, _ => .pure ()
  | .call _, _, _ => .pure ()
  | .startSequence _, _, _ => .pure ()
  | .stopSequence _, _, _ => .pure ()
  | .probe _ _, _, _ => .note _
  | .custom _ _ _ _, _, _ => .onStage _

theorem enterLanes_keeps : (l : List (Step Command)) → (cue : Cue) → (index : Nat) →
    (a₀ : Lanes l) → (enterLanes run l cue index).Keeps (agreeLanes l false a₀)
  | [], _, _, _ => .pure ()
  | s :: rest, cue, index, a₀ => .bind
      (.first (Lane.enter_keeps (Step.enter_keeps s (cue.child index) a₀.1.child)) (fun _ h => h.1)
        fun _ _ h hp => ⟨hp, h.2⟩)
      fun _ => .second (enterLanes_keeps rest cue (index + 1) a₀.2) (fun _ h => h.2)
        fun _ _ h hp => ⟨h.1, hp⟩

end

theorem exitNth_keeps : (l : List (Step Command)) → (cue : Cue) → (n : Nat) → (a₀ : Children l) →
    (exitNth run l cue n).Keeps (agreeChildren l none a₀)
  | [], _, _, _ => .pure ()
  | s :: _, cue, 0, a₀ => .first (cue.exit_keeps (Step.exit_keeps run s cue a₀.1)) (fun _ h => h.1)
      fun _ _ h hp => ⟨hp, h.2⟩
  | _ :: rest, cue, n + 1, a₀ => .second (exitNth_keeps rest cue n a₀.2) (fun _ h => h.2)
      fun _ _ h hp => ⟨h.1, hp⟩

variable (dt : Float32)

mutual

theorem Step.tick_keeps : (s : Step Command) → (cue : Cue) → (p₀ : s.Progress) →
    (s.tick run dt cue).Keeps (s.Agree false p₀)
  | .wait _, _, _ => .any _ fun _ => nofun
  | .frames _, _, _ => .any _ fun _ => nofun
  | .await _ _ _, _, _ => .any _ fun _ => nofun
  | .barrier _ _, _, _ => .any _ fun _ => nofun
  | .tween t, cue, _ => fun p s h => ⟨t.tick_keeps cue.owner dt p s h.1, nofun⟩
  | .choose _ yes no, cue, p₀ => ChoiceProgress.tick_keeps
      (Track.tick_keeps fun i fresh => driveNth_keeps yes (cue.child i) i i fresh p₀.yes.children)
      (Track.tick_keeps fun i fresh => driveNth_keeps no (cue.otherwise i) i i fresh p₀.no.children)
  | .bounded _ _ steps, cue, p₀ => BoundedProgress.tick_keeps
      (Track.tick_keeps fun i fresh =>
        driveNth_keeps steps (cue.child i) i i fresh p₀.body.children)
      (Track.cancel_keeps fun i => exitNth_keeps run steps (cue.child i) i p₀.body.children)
  | .retry _ steps, cue, p₀ => RetryProgress.tick_keeps
      (Track.tick_keeps fun i fresh =>
        driveNth_keeps steps (cue.child i) i i fresh p₀.body.children)
  | .group steps, cue, p₀ => by
    rw [Step.tick]
    exact Track.tick_keeps fun i fresh => driveNth_keeps steps (cue.child i) i i fresh p₀.children
  | .parallel mode steps, cue, p₀ => .bind (tickLanes_keeps steps cue 0 p₀) fun _ =>
      .readThen fun _ _ => mode.conclude_keeps cue.owner _ _
  | .component _ _ _, _, _ => .readThen fun _ _ => .onStage _
  | .publish _, _, _ => .bind (.onStage _) fun _ => .pure _
  | .invoke _ _, _, _ => .onStage _
  | .call _, _, _ => .bind (.onStage _) fun _ => .pure _
  | .startSequence _, _, _ => .onStage _
  | .stopSequence _, _, _ => .bind (.onStage _) fun _ => .pure _
  | .probe _ _, _, _ => .any _ fun _ => trivial
  | .custom _ _ _ _, _, _ => .any _ fun _ => trivial

theorem driveNth_keeps : (l : List (Step Command)) → (cue : Cue) → (index n : Nat) →
    (fresh : Bool) → (a₀ : Children l) →
    (driveNth run dt l cue index n fresh).Keeps (agreeChildren l none a₀)
  | [], _, _, _, _, _ => .pure _
  | s :: _, cue, _, 0, _, a₀ => .first (cue.drive_keeps (Step.enter_keeps run s cue a₀.1)
      (Step.tick_keeps s cue a₀.1) (Step.exit_keeps run s cue a₀.1)) (fun _ h => h.1)
      fun _ _ h hp => ⟨hp, h.2⟩
  | _ :: rest, cue, index, n + 1, fresh, a₀ => .second
      (driveNth_keeps rest cue index n fresh a₀.2) (fun _ h => h.2) fun _ _ h hp => ⟨h.1, hp⟩

theorem tickLanes_keeps : (l : List (Step Command)) → (cue : Cue) → (index : Nat) →
    (a₀ : Lanes l) → (tickLanes run dt l cue index).Keeps (agreeLanes l false a₀)
  | [], _, _, _ => .pure _
  | s :: rest, cue, index, a₀ => .bind
      (.first (Lane.tick_keeps (Step.tick_keeps s (cue.child index) a₀.1.child)
        (Step.exit_keeps run s (cue.child index) a₀.1.child)) (fun _ h => h.1)
        fun _ _ h hp => ⟨hp, h.2⟩)
      fun _ => .bind (.second (tickLanes_keeps rest cue (index + 1) a₀.2) (fun _ h => h.2)
        fun _ _ h hp => ⟨h.1, hp⟩) fun _ => .pure _

end

end

end Sequencer
