import Sequencer.Proofs.Entering

/-!
# The past of children

A history of calls of a composite step is a history of calls of its children. So what an activation
of a child can rely on, whatever happened before, it can also rely on inside its owner.
-/

set_option autoImplicit false

namespace Sequencer

def leftChildren : (l : List (Step Command)) → Children l → Children l → Prop
  | [], _, _ => True
  | s :: rest, p₀, p => s.Left p₀.1 p.1 ∧ leftChildren rest p₀.2 p.2

def leftLanes : (l : List (Step Command)) → Lanes l → Lanes l → Prop
  | [], _, _ => True
  | s :: rest, a₀, a => s.Left a₀.1.child a.1.child ∧ leftLanes rest a₀.2 a.2

theorem leftChildren_refl : (l : List (Step Command)) → (p : Children l) → leftChildren l p p
  | [], _ => trivial
  | _ :: rest, p => ⟨.nothing, leftChildren_refl rest p.2⟩

theorem leftLanes_refl : (l : List (Step Command)) → (a : Lanes l) → leftLanes l a a
  | [], _ => trivial
  | _ :: rest, a => ⟨.nothing, leftLanes_refl rest a.2⟩

section

variable (run : Runner) (s : Step Command) (cue : Cue) (p₀ : s.Progress)

theorem Step.enter_left : (s.enter run cue).Keeps (s.Left p₀) := by
  intro p world h
  have hleft := h.called run cue .enter world
  rw [Step.answer, Play.bind_apply] at hleft
  rcases hx : s.enter run cue (p, world) with ⟨e | a, q, t⟩ <;> rw [hx] at hleft <;> exact hleft

theorem Step.tick_left (dt : Float32) : (s.tick run dt cue).Keeps (s.Left p₀) := by
  intro p world h
  have hleft := h.called run cue (.tick dt) world
  rw [Step.answer, Play.bind_apply] at hleft
  rcases hx : s.tick run dt cue (p, world) with ⟨e | a, q, t⟩ <;> rw [hx] at hleft <;> exact hleft

theorem Step.exit_left : (s.exit run cue).Keeps (s.Left p₀) := by
  intro p world h
  have hleft := h.called run cue .exit world
  rw [Step.answer, Play.bind_apply] at hleft
  rcases hx : s.exit run cue (p, world) with ⟨e | a, q, t⟩ <;> rw [hx] at hleft <;> exact hleft

end

variable (run : Runner) (dt : Float32)

theorem driveNth_left : (l : List (Step Command)) → (cue : Cue) → (index n : Nat) →
    (fresh : Bool) → (p₀ : Children l) →
    (driveNth run dt l cue index n fresh).Keeps (leftChildren l p₀)
  | s :: _, cue, _, 0, _, p₀ => .first (cue.drive_keeps (s.enter_left run cue p₀.1)
      (s.tick_left run cue p₀.1 dt) (s.exit_left run cue p₀.1)) (fun _ h => h.1)
      fun _ _ h hp => ⟨hp, h.2⟩
  | _ :: rest, cue, index, n + 1, fresh, p₀ => .second
      (driveNth_left rest cue index n fresh p₀.2) (fun _ h => h.2) fun _ _ h hp => ⟨h.1, hp⟩
  | [], _, _, _, _, _ => .pure _

theorem enterLanes_left : (l : List (Step Command)) → (cue : Cue) → (index : Nat) →
    (a₀ : Lanes l) → (enterLanes run l cue index).Keeps (leftLanes l a₀)
  | s :: rest, cue, index, a₀ => by
    have henter : (Lane.enter (cue.child index) (s.enter run (cue.child index))).Keeps
        (Lane.Agree (fun _ => s.Left) false a₀.1) :=
      Lane.enter_keeps (s.enter_left run (cue.child index) a₀.1.child)
    apply Play.Keeps.bind
    · exact .first henter (fun _ h => ⟨of_idle, h.1⟩) fun _ _ h hp => ⟨hp.child, h.2⟩
    · intro _
      exact .second (enterLanes_left rest cue (index + 1) a₀.2) (fun _ h => h.2)
        fun _ _ h hp => ⟨h.1, hp⟩
  | [], _, _, _ => .pure ()

theorem tickLanes_left : (l : List (Step Command)) → (cue : Cue) → (index : Nat) →
    (a₀ : Lanes l) → (tickLanes run dt l cue index).Keeps (leftLanes l a₀)
  | s :: rest, cue, index, a₀ => by
    have htick : (Lane.tick (cue.child index) dt (s.tick run dt (cue.child index))
        (s.exit run (cue.child index))).Keeps (Lane.Agree (fun _ => s.Left) false a₀.1) :=
      Lane.tick_keeps (s.tick_left run (cue.child index) a₀.1.child dt)
        (s.exit_left run (cue.child index) a₀.1.child)
    apply Play.Keeps.bind
    · exact .first htick (fun _ h => ⟨of_idle, h.1⟩) fun _ _ h hp => ⟨hp.child, h.2⟩
    · intro _
      apply Play.Keeps.bind
      · exact .second (tickLanes_left rest cue (index + 1) a₀.2) (fun _ h => h.2)
          fun _ _ h hp => ⟨h.1, hp⟩
      · exact fun _ => .pure _
  | [], _, _, _ => .pure _

/-- What holds of the progress a step was built with, and is kept by its calls, holds of whatever
a history of calls leaves behind. -/
theorem Step.Left.keeps {s : Step Command} {p₀ p : s.Progress} {I : s.Progress → Prop}
    (h : s.Left p₀ p) (h₀ : I p₀) (henter : ∀ run cue, (s.enter run cue).Keeps I)
    (htick : ∀ run dt cue, (s.tick run dt cue).Keeps I)
    (hexit : ∀ run cue, (s.exit run cue).Keeps I) : I p := by
  induction h with
  | nothing => exact h₀
  | called run cue call world _ ih =>
    have hanswer : (s.answer run cue call).Keeps I := by
      cases call with
      | enter => exact .bind (henter run cue) fun _ => .pure _
      | tick dt => exact .bind (htick run dt cue) fun _ => .pure _
      | exit => exact .bind (hexit run cue) fun _ => .pure _
    exact hanswer _ world ih

section

variable {steps : List (Step Command)}

theorem Step.Left.group {p₀ p : Track (Children steps)}
    (h : (Step.group steps).Left p₀ p) : leftChildren steps p₀.children p.children := by
  have hagree : Track.Agree (fun _ => leftChildren steps) false p₀ p := by
    apply h.keeps
    · exact ⟨of_idle, leftChildren_refl steps _⟩
    · exact fun run cue => Track.change_keeps fun _ => rfl
    · intro run dt cue
      rw [Step.tick]
      exact Track.tick_keeps fun i fresh => driveNth_left run dt steps (cue.child i) i i fresh _
    · exact fun run cue => .pure ()
  exact hagree.children

theorem Step.Left.retry {attempts : UInt32} {p₀ p : RetryProgress (Children steps)}
    (h : (Step.retry attempts steps).Left p₀ p) :
    leftChildren steps p₀.body.children p.body.children := by
  have hagree : RetryProgress.Agree (fun _ => leftChildren steps) false p₀ p := by
    apply h.keeps
    · exact ⟨of_idle, of_idle, leftChildren_refl steps _⟩
    · exact fun run cue => .change fun _ h => ⟨of_idle, ⟨of_idle, h.body.children⟩⟩
    · exact fun run dt cue => RetryProgress.tick_keeps
        (Track.tick_keeps fun i fresh => driveNth_left run dt steps (cue.child i) i i fresh _)
    · exact fun run cue => .pure ()
  exact hagree.body.children

theorem Step.Left.choose {question : Question Command} {yes no : List (Step Command)}
    {p₀ p : ChoiceProgress (Children yes) (Children no)}
    (h : (Step.choose question yes no).Left p₀ p) :
    leftChildren yes p₀.yes.children p.yes.children ∧
      leftChildren no p₀.no.children p.no.children := by
  have hagree : ChoiceProgress.Agree (fun _ => leftChildren yes) (fun _ => leftChildren no) false
      p₀ p := by
    apply h.keeps
    · exact ⟨of_idle, ⟨of_idle, leftChildren_refl yes _⟩, ⟨of_idle, leftChildren_refl no _⟩⟩
    · exact fun run cue => ChoiceProgress.enter_keeps run cue question p₀
    · exact fun run dt cue => ChoiceProgress.tick_keeps
        (Track.tick_keeps fun i fresh => driveNth_left run dt yes (cue.child i) i i fresh _)
        (Track.tick_keeps fun i fresh => driveNth_left run dt no (cue.otherwise i) i i fresh _)
    · exact fun run cue => .pure ()
  exact ⟨hagree.yes.children, hagree.no.children⟩

theorem Step.Left.parallel {mode : Quorum} {a₀ a : Lanes steps}
    (h : (Step.parallel mode steps).Left a₀ a) : leftLanes steps a₀ a := by
  apply Step.Left.keeps (s := .parallel mode steps) (I := leftLanes steps a₀) h
  · exact leftLanes_refl steps a₀
  · exact fun run cue => enterLanes_left run steps cue 0 a₀
  · exact fun run dt cue => .bind (tickLanes_left run dt steps cue 0 a₀) fun _ =>
      .readThen fun _ _ => mode.conclude_keeps cue.owner _ _
  · exact fun run cue => .pure ()

end

end Sequencer
