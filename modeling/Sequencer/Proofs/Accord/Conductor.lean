import Sequencer.Conductor.Frame
import Sequencer.Proofs.Accord.Steps

/-!
# Operations on a sequence and on its mate

Whatever is done to a sequence by its name, and whatever its turn in a frame does, accords, as long
as the user code in it does: the code of its callbacks, the conditions that are asked before it
starts, and its steps.
-/

set_option autoImplicit false

namespace Sequencer

structure Accord.Attends (A : Accord) (run run' : Runner) : Prop where
  code : ∀ l, A.cast.code l → Act.Accords A (performAll run l) (performAll run' l)
  condition : ∀ c, A.cast.condition c → A.Answers c

structure Accord.Carries (A : Accord) (run run' : Runner) : Prop extends A.Attends run run' where
  step : ∀ x owner, A.cast.named owner → A.cast.step x → x.InAccord A run run' owner

namespace Act.Accords

variable {A : Accord} {α : Type} {i j : Nat}

theorem sequence (hm : A.mate i j) {k l : Sequence → Act α}
    (h : ∀ p q, p.Akin q → p.Fits A.cast → Act.Accords A (k p) (l q)) :
    Act.Accords A (.read (·.sequence i) >>= k) (.read (·.sequence j) >>= l) :=
  .read_bind fun s t hst => h _ _ (A.akin hst hm) (A.fits hst hm) s t hst

theorem modify (hm : A.mate i j) {f g : Sequence → Sequence}
    (hf : ∀ p q, p.Akin q → (f p).Akin (g q)) (hfits : ∀ p, p.Fits A.cast → (f p).Fits A.cast) :
    Act.Accords A (.change (·.modify i f)) (.change (·.modify j g)) :=
  .change fun _ _ hst =>
    A.modify hst hm (hf _ _ (A.akin hst hm)) (hfits _ (A.fits hst hm))

theorem enlist (hm : A.mate i j) : Act.Accords A (.change (·.enlist i)) (.change (·.enlist j)) :=
  .change fun _ _ hst => A.enlist hst hm

theorem delist (hm : A.mate i j) : Act.Accords A (.change (·.delist i)) (.change (·.delist j)) :=
  .change fun _ _ hst => A.delist hst hm

end Act.Accords

namespace Conductor

variable {A : Accord} {run run' : Runner} {i j : Nat}

theorem onNamed_accords {α : Type} {name : String} (hn : A.cast.named name) {absent : α}
    {act act' : Nat → Act α} (h : ∀ i j, A.mate i j → Act.Accords A (act i) (act' j)) :
    Act.Accords A (onNamed name absent act) (onNamed name absent act') := by
  intro s t hst
  have hfind := A.find hst hn
  generalize hs : s.find? name = a at hfind
  generalize ht : t.find? name = b at hfind
  simp only [onNamed, locate, Act.bind_apply, Act.read, hs, ht]
  cases hfind with
  | none => exact ⟨.ok rfl, A.noticeRight _ (A.noticeLeft _ hst)⟩
  | some hm => exact h _ _ hm s t hst

theorem notify_accords (h : A.Attends run run') (hm : A.mate i j) (hook : Hook) :
    Act.Accords A (notify run i hook) (notify run' j hook) := by
  refine .sequence hm fun p q hpq hp => ?_
  rw [hpq.hook, hpq.name]
  refine .bind (.note (.notified _ _ _ hm)) fun _ => ?_
  cases hl : p.hook hook with
  | none => exact .pure ()
  | some l => exact h.code l (hp.hooks hook l hl)

theorem failures_accords (h : A.Attends run run') (hm : A.mate i j) :
    (l : List Validator) → (index : Nat) → (∀ v ∈ l, A.cast.condition v.condition) →
    Act.Accords A (failures i index l) (failures j index l)
  | [], _, _ => .pure []
  | v :: rest, index, hl => by
    have hv := h.condition _ (hl v List.mem_cons_self)
    exact .bind (.ask hv (.validator index hm) "" 1) fun _ =>
      .bind (failures_accords h hm rest (index + 1) fun w hw => hl w (List.mem_cons_of_mem v hw))
        fun _ => .pure _

theorem admitted_accords (h : A.Attends run run') (hm : A.mate i j) {guard : Option Condition}
    (hg : ∀ c ∈ guard, A.cast.condition c) :
    Act.Accords A (admitted i guard) (admitted j guard) := by
  cases guard with
  | none => exact .pure true
  | some c => exact .ask (h.condition c (hg c rfl)) (.guard hm) "" 1

theorem tryOut_accords (h : A.Attends run run') (hm : A.mate i j) {p q : Sequence}
    (hpq : p.Akin q) (hp : p.Fits A.cast) : Act.Accords A (tryOut i p) (tryOut j q) := by
  unfold tryOut
  rw [hpq.validators, hpq.name]
  have hchecked : ∀ r : Sequence, r.Fits A.cast → Sequence.Fits A.cast { r with validators := [] } :=
    fun r h => h.same rfl rfl rfl (by simp) fun hook => by cases hook <;> rfl
  refine .bind (.modify hm (fun _ _ h => h.checked) hchecked) fun _ => ?_
  refine .bind (failures_accords h hm p.validators 0 hp.validators) fun failed =>
    .ite (.bind (.modify hm (fun _ _ h => h.begun) fun _ h => h.state ..) fun _ => ?_) (.pure _)
  exact .bind (.say _ _) fun _ => .bind (.note (.began hm)) fun _ =>
    .bind (.note (.moved _ _ hm)) fun _ => .pure _

theorem launch_accords (h : A.Attends run run') (hm : A.mate i j) :
    Act.Accords A (launch i) (launch j) := by
  refine .sequence hm fun p q hpq hp => ?_
  rw [hpq.running, hpq.guard, hpq.name]
  exact .ite (.bind (.say _ _) fun _ => .pure _) <|
    .bind (admitted_accords h hm hp.guard) fun _ =>
      .ite (.bind (.say _ _) fun _ => .pure _) (tryOut_accords h hm hpq hp)

theorem start_accords (h : A.Attends run run') {name : String} (hn : A.cast.named name) :
    Act.Accords A (start run name) (start run' name) := by
  refine onNamed_accords hn fun i j hm => .bind (launch_accords h hm) fun r => ?_
  rcases r with e | started
  · exact .pure _
  · cases started with
    | false => exact .pure _
    | true =>
      exact .bind (.enlist hm) fun _ => .bind (notify_accords h hm .started) fun _ => .pure _

theorem breakOff_accords (h : A.Attends run run') (hm : A.mate i j) :
    Act.Accords A (breakOff run i) (breakOff run' j) := by
  refine .sequence hm fun p q hpq _ => ?_
  rw [hpq.running, hpq.name, hpq.current]
  exact .ite (.bind (.modify hm (fun _ _ h => h.ended) fun _ h => h.state ..) fun _ =>
    .bind (.say _ _) fun _ => .bind (notify_accords h hm .stopped) fun _ => .pure _) (.pure _)

theorem stop_accords (h : A.Attends run run') {name : String} (hn : A.cast.named name) :
    Act.Accords A (stop run name) (stop run' name) := by
  refine onNamed_accords hn fun i j hm => .bind (breakOff_accords h hm) fun _ =>
    .sequence hm fun p q hpq _ => ?_
  rw [hpq.running]
  exact .bind (.note (.dropped _ hm)) fun _ => .bind (.delist hm) fun _ => .pure _

theorem finish_accords (h : A.Attends run run') (hm : A.mate i j) :
    Act.Accords A (finish run i) (finish run' j) :=
  .bind (.modify hm (fun _ _ h => h.ended) fun _ h => h.state ..) fun _ =>
    .sequence hm fun _ _ _ _ => .bind (.say _ _) fun _ => notify_accords h hm .completed

theorem setPaused_accords {name : String} (hn : A.cast.named name) (paused : Bool → Bool) :
    Act.Accords A (setPaused name paused) (setPaused name paused) :=
  onNamed_accords hn fun _ _ hm =>
    .bind (.modify hm (fun _ _ h => h.pausing paused) fun _ h => h.state ..) fun _ => .pure _

theorem reset_accords {name : String} (hn : A.cast.named name) :
    Act.Accords A (reset name) (reset name) :=
  onNamed_accords hn fun _ _ hm =>
    .bind (.modify hm (fun _ _ h => h.rewound) fun _ h => h.state ..) fun _ =>
      .bind (.note (.moved _ _ hm)) fun _ => .pure _

theorem remove_accords (h : A.Attends run run') {name : String} (hn : A.cast.named name) :
    Act.Accords A (remove run name) (remove run' name) := by
  intro s t hst
  have hfind := A.find hst hn
  generalize hs : s.find? name = a at hfind
  generalize ht : t.find? name = b at hfind
  simp only [remove, Act.bind_apply, Act.read, hs, ht]
  cases hfind with
  | none => exact ⟨.ok rfl, hst⟩
  | some hm =>
    have hact : ∀ {i j}, A.mate i j → Act.Accords A
        (do
          .change (·.unregister name)
          let _ ← breakOff run i
          .change (·.delist i)
          .say (.removed name)
          return true : Act Bool)
        (do
          .change (·.unregister name)
          let _ ← breakOff run' j
          .change (·.delist j)
          .say (.removed name)
          return true) := fun hm =>
      .bind (.change fun _ _ hst => A.unregister hst hn) fun _ =>
        .bind (breakOff_accords h hm) fun _ => .bind (.delist hm) fun _ =>
          .bind (.say _ _) fun _ => .pure _
    exact hact hm s t hst

theorem capture_accords {name : String} (hn : A.cast.named name) :
    Act.Accords A (capture name) (capture name) := by
  refine onNamed_accords hn fun i j hm => .sequence hm fun p q hpq _ => ?_
  rw [hpq.bookmark]
  exact .pure _

theorem restore_accords {b : Bookmark} (hn : A.cast.named b.sequence) :
    Act.Accords A (restore b) (restore b) := by
  refine onNamed_accords hn fun i j hm => .sequence hm fun p q hpq _ => ?_
  rw [hpq.running]
  refine .bind (.modify hm (fun _ _ h => h.resumed _) fun _ h => h.state ..) fun _ =>
    .bind (.note (.restored _ hm)) fun _ => .sequence hm fun p q hpq _ => ?_
  rw [hpq.current]
  exact .bind (.note (.moved _ _ hm)) fun _ => .bind (.enlist hm) fun _ =>
    .sequence hm fun _ _ _ _ => .bind (.say _ _) fun _ => .pure _

theorem startAnother_accords (h : A.Attends run run') {target : String} (hn : A.cast.named target)
    (owner : String) :
    Act.Accords A (startAnother run owner target) (startAnother run' owner target) := by
  refine .bind (start_accords h hn) fun r => ?_
  cases r with
  | ok started => exact .pure _
  | error why => exact .bind (.say _ _) fun _ => .pure _

/-- A step that is lent comes back to the sequence as the play has left it. -/
theorem lend_accords {α : Type} (hm : A.mate i j) (index : Nat) {x : Step Command}
    (hx : A.cast.step x) {p q : x.Progress} (hpq : x.Akin p q) {play play' : Play x.Progress α}
    (h : Play.Accords A x.Akin play play') :
    Act.Accords A (lend i index ⟨x, p⟩ play) (lend j index ⟨x, q⟩ play') := by
  intro s t hst
  have hlent : A.rel (s.modify i fun r => { r with ticking := true })
      (t.modify j fun r => { r with ticking := true }) :=
    A.modify hst hm ((A.akin hst hm).lending true) ((A.fits hst hm).state ..)
  obtain ⟨hr, hp, hrel⟩ := h p q _ _ hpq hlent
  have hback := (A.akin hrel hm).withPart index (.intro hp)
  have hfits : ∀ r : x.Progress, (Sequence.withPart index ⟨x, r⟩ _).Fits A.cast :=
    fun r => (A.fits hrel hm).withPart hx index
  exact ⟨hr, A.modify hrel hm (hback.lending false) ((hfits _).state ..)⟩

theorem driveStep_accords (h : A.Carries run run') (hm : A.mate i j) (dt : Float32)
    {p q : Sequence} (hpq : p.Akin q) (hp : p.Fits A.cast) {part part' : Part}
    (hpart : part.Akin part') (hx : A.cast.step part.step) :
    Act.Accords A (driveStep run dt i p part) (driveStep run' dt j q part') := by
  cases hpart with
  | @intro x a b hab =>
    let c : Cue := { owner := p.name, site := .top i p.current }
    let d : Cue := { owner := p.name, site := .top j p.current }
    have hc : c.Mates A d := ⟨rfl, hp.named, .top _ hm⟩
    have hin := h.step x p.name hp.named hx
    have hplay : Play.Accords A x.Akin (playPart run dt i p ⟨x, a⟩) (playPart run' dt j q ⟨x, b⟩) := by
      unfold playPart
      rw [hpq.name, hpq.current, hpq.entered]
      exact Cue.drive_accords hc .sequence x.label p.current dt _ (Step.enter_accords x hc hin)
        (Step.tick_accords x hc rfl hin) (Step.exit_accords x hc hin)
    unfold driveStep
    rw [hpq.current, hpq.generation]
    refine .bind (.note (.turn _ hm)) fun _ =>
      .bind (.modify hm (fun _ _ h => h.entering) fun _ h => h.state ..) fun _ =>
        .bind (lend_accords hm p.current hx hab hplay) fun status =>
          .bind (.note (.drove _ hm)) fun _ => .ite (.sequence hm fun r r' hr _ => ?_) (.pure ())
    rw [hr.generation]
    exact .ite (.bind (.modify hm (fun _ _ h => h.advanced _) fun _ h => h.state ..) fun _ =>
      .note (.moved _ _ hm)) (.pure ())

theorem turn_accords (h : A.Carries run run') (hm : A.mate i j) (dt : Float32) :
    Act.Accords A (turn run dt i) (turn run' dt j) := by
  refine .sequence hm fun p q hpq hp => ?_
  rw [hpq.running, hpq.stepCount, hpq.current, hpq.ticking, hpq.name]
  refine .ite (.note (.turn _ hm)) <| .ite
    (.bind (.note (.turn _ hm)) fun _ => finish_accords h.toAttends hm) <|
    .ite (.bind (.note (.turn _ hm)) fun _ => .say _ _) ?_
  have hpart := hpq.parts p.current
  generalize hl : p.parts[p.current]? = a at hpart
  generalize hr : q.parts[p.current]? = b at hpart
  cases hpart with
  | none => exact .note (.turn _ hm)
  | some hpart =>
    exact driveStep_accords h hm dt hpq hp hpart (hp.steps _ (List.mem_of_getElem? hl))

theorem takeTurn_accords (h : A.Carries run run') (hm : A.mate i j) (dt : Float32) :
    Act.Accords A (takeTurn run dt i) (takeTurn run' dt j) := by
  refine .sequence hm fun p q hpq _ => ?_
  rw [hpq.paused]
  refine .ite (.note (.turn _ hm)) (.bind (turn_accords h hm dt) fun _ =>
    .sequence hm fun r r' hr _ => ?_)
  rw [hr.running]
  exact .ite (.delist hm) (.pure ())

end Conductor

end Sequencer
