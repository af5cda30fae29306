import Sequencer.Proofs.Course.Session
import Sequencer.Proofs.Likeness.Steps

/-!
# What every command upholds

A property of stages may survive whatever is noted, the routine changes of a sequence, and the
attempts to start one. It then survives every step, every turn and every command, whatever user
code runs meanwhile, except that pauses are left to those who know more of the property.
-/

set_option autoImplicit false

namespace Sequencer

def Command.pauses? : Command → Option String
  | .pause name => some name
  | .resume name => some name
  | .togglePause name => some name
  | _ => none

def Entry.isTrial : Entry → Bool
  | .polled (.guard _) _ _ => true
  | .polled (.validator _ _) _ _ => true
  | .began _ => true
  | _ => false

structure Sequence.Routine (f : Sequence → Sequence) : Prop where
  name : ∀ q, (f q).name = q.name := by intro _; rfl
  guard : ∀ q, (f q).guard = q.guard := by intro _; rfl
  validators : ∀ q, (f q).validators = q.validators := by intro _; rfl
  paused : ∀ q, (f q).paused = q.paused := by intro _; rfl

structure Upkeep where
  holds : Stage → Prop
  note : ∀ {s : Stage} {e : Entry}, holds s → e.isTrial = false → holds (s.note e)
  modify : ∀ {s : Stage} (id : Nat) {f : Sequence → Sequence}, holds s → Sequence.Routine f →
    holds (s.modify id f)
  same : ∀ {s t : Stage}, holds s → t.sequences = s.sequences → t.registry = s.registry →
    t.journal = s.journal → holds t
  unregister : ∀ {s : Stage} (name : String), holds s → holds (s.unregister name)
  enroll : ∀ {s : Stage} (q : Sequence), holds s → holds (s.enroll q)
  launch : ∀ {s : Stage} (id : Nat), holds s → holds (Conductor.launch id s).2

theorem Entry.isTrial_of_isCommon {e : Entry} (h : e.isCommon = true) : e.isTrial = false := by
  cases e <;> first | rfl | exact absurd h (by simp [Entry.isCommon])

def Upkeep.likeness (I : Upkeep) : Likeness where
  related s t := t = s ∧ I.holds s
  own _ := True
  site := id
  child _ _ _ := ⟨trivial, rfl⟩
  otherwise _ _ _ := ⟨trivial, rfl⟩
  settings h := by rw [h.1]
  barriers h := by rw [h.1]
  host h := by rw [h.1]
  running h _ := by rw [h.1]
  paused h _ := by rw [h.1]
  note h he := ⟨by rw [h.1], I.note h.2 (Entry.isTrial_of_isCommon he)⟩
  polled _ _ h _ := ⟨by rw [h.1, id_eq], I.note h.2 rfl⟩
  called _ h _ := ⟨by rw [h.1, id_eq], I.note h.2 rfl⟩
  returned _ h _ := ⟨by rw [h.1, id_eq], I.note h.2 rfl⟩
  hosting _ h := ⟨by rw [h.1], I.same h.2 rfl rfl rfl⟩
  arrive {s} _ barrier h := by
    refine ⟨by rw [h.1], ?_⟩
    have hboard : I.holds { s with barriers := s.barriers.arrive barrier } :=
      I.same h.2 rfl rfl rfl
    exact I.note hboard rfl

def Act.Upholds {α : Type} (P : Stage → Prop) (x : Act α) : Prop := ∀ s, P s → P (x s).2

namespace Act.Upholds

variable {α β : Type} {P : Stage → Prop}

theorem pure (a : α) : (pure a : Act α).Upholds P := fun _ h => h

theorem halt (e : Halt) : (Act.halt e : Act α).Upholds P := fun _ h => h

theorem read (f : Stage → α) : (Act.read f).Upholds P := fun _ h => h

theorem bind {x : Act α} {f : α → Act β} (h : x.Upholds P) (hf : ∀ a, (f a).Upholds P) :
    (x >>= f).Upholds P := by
  intro s hs
  have hx := h s hs
  rw [Act.bind_apply]
  rcases hs' : x s with ⟨e | a, t⟩ <;> rw [hs'] at hx
  · exact hx
  · exact hf a t hx

theorem ite {c : Prop} [Decidable c] {x y : Act α} (hx : x.Upholds P) (hy : y.Upholds P) :
    (if c then x else y).Upholds P := by
  split
  · exact hx
  · exact hy

end Act.Upholds

section

variable {I : Upkeep}

def Runner.Upholds (P : Stage → Prop) (run : Runner) : Prop :=
  ∀ c, (do let reply ← run c; Act.note (.did c reply)).Upholds P

namespace Act.Upholds

variable {α : Type}

theorem alike {x : Act α} (h : x.Upholds I.holds) : Act.Alike I.likeness x x := by
  rintro s _ ⟨rfl, hs⟩
  exact ⟨rfl, rfl, h _ hs⟩

theorem of_alike {x : Act α} (h : Act.Alike I.likeness x x) : x.Upholds I.holds :=
  fun s hs => (h s s ⟨rfl, hs⟩).2.2

theorem note {e : Entry} (he : e.isTrial = false) : (Act.note e).Upholds I.holds :=
  fun _ hs => I.note hs he

theorem say (n : Notice) : (Act.say n).Upholds I.holds := note rfl

theorem modify (i : Nat) {f : Sequence → Sequence} (hf : Sequence.Routine f) :
    (Act.change (·.modify i f)).Upholds I.holds := fun _ hs => I.modify i hs hf

theorem enlist (i : Nat) : (Act.change (·.enlist i)).Upholds I.holds :=
  fun s hs => I.same hs (s.sequences_enlist i) (s.registry_enlist i) (s.journal_enlist i)

theorem delist (i : Nat) : (Act.change (·.delist i)).Upholds I.holds :=
  fun _ hs => I.same hs rfl rfl rfl

theorem unregister (n : String) : (Act.change (·.unregister n)).Upholds I.holds :=
  fun _ hs => I.unregister n hs

end Act.Upholds

theorem performAll_upholds {run : Runner} (hrun : run.Upholds I.holds) (l : List Command) :
    (performAll run l).Upholds I.holds := by
  induction l with
  | nil => exact .pure ()
  | cons c rest ih =>
    -- the command and the entry that tells of it are taken together
    have hsplit : performAll run (c :: rest) =
        (do let reply ← run c; Act.note (.did c reply)) >>= fun _ => performAll run rest := by
      funext s
      simp only [performAll, Act.bind_apply]
      rcases run c s with ⟨a | a, t⟩ <;> rfl
    rw [hsplit]
    exact .bind (hrun c) fun _ => ih

namespace Conductor

variable {run : Runner}

theorem onNamed_upholds {α : Type} {n : String} {absent : α} {act : Nat → Act α}
    (h : ∀ i, (act i).Upholds I.holds) : (onNamed n absent act).Upholds I.holds := by
  have hlocate : (locate n).Upholds I.holds := by
    refine .bind (.read _) fun r => ?_
    cases r with
    | some i => exact .pure _
    | none => exact .bind (.say _) fun _ => .pure _
  refine .bind hlocate fun r => ?_
  cases r with
  | some i => exact h i
  | none => exact .pure absent

theorem enroll_upholds (q : Sequence) : (enroll q).Upholds I.holds :=
  .bind (.read _) fun _ => .ite (.pure _) (.bind (.say _) fun _ =>
    .bind (fun _ hs => I.enroll q hs) fun _ => .pure _)

theorem notify_upholds (hrun : run.Upholds I.holds) (i : Nat) (hook : Hook) :
    (notify run i hook).Upholds I.holds :=
  .bind (.read _) fun _ => .bind (.note rfl) fun _ => performAll_upholds hrun _

theorem launch_upholds (i : Nat) : (launch i).Upholds I.holds := fun _ hs => I.launch i hs

theorem start_upholds (hrun : run.Upholds I.holds) (n : String) :
    (start run n).Upholds I.holds := by
  refine onNamed_upholds fun i => .bind (launch_upholds i) fun r => ?_
  split
  · exact .bind (.enlist i) fun _ => .bind (notify_upholds hrun i .started) fun _ => .pure _
  · exact .pure _

theorem breakOff_upholds (hrun : run.Upholds I.holds) (i : Nat) :
    (breakOff run i).Upholds I.holds :=
  .bind (.read _) fun _ => .ite
    (.bind (.modify i {}) fun _ => .bind (.say _) fun _ =>
      .bind (notify_upholds hrun i .stopped) fun _ => .pure _)
    (.pure _)

theorem stop_upholds (hrun : run.Upholds I.holds) (n : String) :
    (stop run n).Upholds I.holds :=
  onNamed_upholds fun i => .bind (breakOff_upholds hrun i) fun _ => .bind (.read _) fun _ =>
    .bind (.note rfl) fun _ => .bind (.delist i) fun _ => .pure _

theorem finish_upholds (hrun : run.Upholds I.holds) (i : Nat) :
    (finish run i).Upholds I.holds :=
  .bind (.modify i {}) fun _ => .bind (.read _) fun _ => .bind (.say _) fun _ =>
    notify_upholds hrun i .completed

theorem reset_upholds (n : String) : (reset n).Upholds I.holds :=
  onNamed_upholds fun i => .bind (.modify i {}) fun _ => .bind (.note rfl) fun _ => .pure _

theorem remove_upholds (hrun : run.Upholds I.holds) (n : String) :
    (remove run n).Upholds I.holds := by
  refine .bind (.read _) fun r => ?_
  cases r with
  | none => exact .pure _
  | some i =>
    exact .bind (.unregister n) fun _ => .bind (breakOff_upholds hrun i) fun _ =>
      .bind (.delist i) fun _ => .bind (.say _) fun _ => .pure _

theorem restore_upholds (m : Bookmark) : (restore m).Upholds I.holds :=
  onNamed_upholds fun i => .bind (.read _) fun _ => .bind (.modify i {}) fun _ =>
    .bind (.note rfl) fun _ => .bind (.read _) fun _ => .bind (.note rfl) fun _ =>
      .bind (.enlist i) fun _ => .bind (.read _) fun _ => .bind (.say _) fun _ => .pure _

/-! Steps and turns -/

theorem userCode_upholds (hrun : run.Upholds I.holds) (owner : String) :
    AllUserCode (fun _ => Act.Alike I.likeness) run run owner where
  commands l := (performAll_upholds hrun l).alike
  starts target := .bind (start_upholds hrun target).alike fun r => match r with
    | .ok _ => .pure _
    | .error _ => .bind (.say rfl) fun _ => .pure _
  stops target := (stop_upholds hrun target).alike

theorem playPart_upholds (hrun : run.Upholds I.holds) (dt : Float32) (i : Nat) (q : Sequence)
    (part : Part) : Play.Alike I.likeness (playPart run dt i q part)
      (playPart run dt i q part) := by
  have hstep := (userCode_upholds hrun q.name).step part.step
  have hnote : ∀ (n : Notice) (s t : Stage), I.likeness.related s t →
      I.likeness.related (s.note (.notice n)) (t.note (.notice n)) :=
    fun n s t ⟨h, hs⟩ => ⟨by rw [h], I.note hs rfl⟩
  exact Cue.drive_alike (L := I.likeness) (c := { owner := q.name, site := .top i _ })
    trivial (hnote _) (fun _ => hnote _) (Step.enter_alike part.step _ trivial hstep)
    (Step.tick_alike part.step _ trivial rfl hstep) (Step.exit_alike part.step _ hstep)

theorem driveStep_upholds (hrun : run.Upholds I.holds) (dt : Float32) (i : Nat) (q : Sequence)
    (part : Part) : (driveStep run dt i q part).Upholds I.holds := by
  have hlend : (lend i q.current part (playPart run dt i q part)).Upholds I.holds := by
    intro s hs
    have hlent : I.holds (s.modify i fun q => { q with ticking := true }) :=
      I.modify i hs {}
    obtain ⟨-, -, -, hu⟩ := playPart_upholds hrun dt i q part part.progress _ _ ⟨rfl, hlent⟩
    exact I.modify i hu {}
  refine .bind (.note rfl) fun _ => .bind (.modify i {}) fun _ => .bind hlend fun _ =>
    .bind (.note rfl) fun _ => .ite (.bind (.read _) fun _ => .ite ?_ (.pure _)) (.pure _)
  exact .bind (.modify i {}) fun _ => .note rfl

theorem takeTurn_upholds (hrun : run.Upholds I.holds) (dt : Float32) (i : Nat) :
    (takeTurn run dt i).Upholds I.holds := by
  have hturn : (turn run dt i).Upholds I.holds := by
    refine .bind (.read _) fun q => .ite (.note rfl) <|
      .ite (.bind (.note rfl) fun _ => finish_upholds hrun i) <|
        .ite (.bind (.note rfl) fun _ => .say _) ?_
    split
    · exact driveStep_upholds hrun dt i q _
    · exact .note rfl
  exact .bind (.read _) fun _ => .ite (.note rfl) <| .bind hturn fun _ =>
    .bind (.read _) fun _ => .ite (.delist i) (.pure _)

theorem takeTurns_upholds (hrun : run.Upholds I.holds) (dt : Float32) (l : List Nat) :
    (takeTurns run dt l).Upholds I.holds := by
  induction l with
  | nil => exact .pure ()
  | cons i rest ih => exact .bind (takeTurn_upholds hrun dt i) fun _ => ih

theorem tick_upholds (hrun : run.Upholds I.holds) (dt : Float32) :
    (tick run dt).Upholds I.holds := .bind (.read _) fun l => takeTurns_upholds hrun dt l

theorem tickMany_upholds (hrun : run.Upholds I.holds) (dt : Float32) (first n : Nat) :
    (tickMany run dt first n).Upholds I.holds := by
  induction n generalizing first with
  | zero => exact .pure ()
  | succ n ih => exact .bind (.note rfl) fun _ => .bind (tick_upholds hrun dt) fun _ => ih _

end Conductor

namespace Hands

variable {run : Runner} {slot : String}

theorem playPart_upholds {α : Type} {play : (x : Step Command) → Play x.Progress α}
    {answer : Part → α → Reply} (h : ∀ x, Play.Alike I.likeness (play x) (play x)) :
    (playPart slot play answer).Upholds I.holds := by
  intro s hs
  simp only [playPart]
  split
  · next p _ =>
    have herase : I.holds { s with held := s.held.erase slot } :=
      I.same hs rfl rfl rfl
    obtain ⟨-, -, -, hu⟩ := h p.step p.progress _ _ ⟨rfl, herase⟩
    exact I.same hu rfl rfl rfl
  · exact hs

theorem playTrack_upholds {α : Type} {play : (t : HeldTrack) → Play (Track (Children t.steps)) α}
    {answer : HeldTrack → α → Reply}
    (h : ∀ t, Play.Alike I.likeness (play t) (play t)) :
    (playTrack slot play answer).Upholds I.holds := by
  intro s hs
  simp only [playTrack]
  split
  · next t _ =>
    have herase : I.holds { s with held := s.held.erase slot } :=
      I.same hs rfl rfl rfl
    obtain ⟨-, -, -, hu⟩ := h t t.track _ _ ⟨rfl, herase⟩
    exact I.same hu rfl rfl rfl
  · exact hs

theorem put_upholds (h : Held) : (put slot h).Upholds I.holds :=
  fun _ hs => I.same hs rfl rfl rfl

theorem resolver_upholds : resolver.Upholds I.holds := .bind (.read _) fun _ => .pure _

theorem register_upholds (slot : String) : (register slot).Upholds I.holds := by
  intro s hs
  simp only [register]
  split
  · next q _ =>
    have herase : I.holds { s with held := s.held.erase slot } :=
      I.same hs rfl rfl rfl
    exact Conductor.enroll_upholds q _ herase
  · exact hs

end Hands

/-! Commands -/

variable {run : Runner}

/-- A command upholds what everything does, if pausing does where the command pauses. -/
theorem dispatch_upholds (hrun : run.Upholds I.holds) : (c : Command) →
    (∀ n, c.pauses? = some n → ∀ f, (Conductor.setPaused n f).Upholds I.holds) →
    (dispatch run c).Upholds I.holds
  | .register _, _ => .bind (.bind (.read _) fun _ => Conductor.enroll_upholds _) fun _ => .pure _
  | .start n, _ => .bind (Conductor.start_upholds hrun n) fun _ => .pure _
  | .stop n, _ => .bind (Conductor.stop_upholds hrun n) fun _ => .pure _
  | .pause n, hpause => .bind (hpause n rfl _) fun _ => .pure _
  | .resume n, hpause => .bind (hpause n rfl _) fun _ => .pure _
  | .togglePause n, hpause => .bind (hpause n rfl _) fun _ => .pure _
  | .reset n, _ => .bind (Conductor.reset_upholds n) fun _ => .pure _
  | .remove n, _ => .bind (Conductor.remove_upholds hrun n) fun _ => .pure _
  | .tick dt none, _ => .bind (Conductor.tick_upholds hrun dt) fun _ => .pure _
  | .tick dt (some n), _ => .bind (Conductor.tickMany_upholds hrun dt 0 n) fun _ => .pure _
  | .capture n keepAs, _ => by
    refine .bind (Conductor.onNamed_upholds fun i => .bind (.read _) fun _ => .pure _) fun m => ?_
    dsimp only
    split
    · exact .bind (.of_alike (onHost_alike _)) fun _ => .pure _
    · exact .pure (Reply.bookmark m)
  | .restore (.at m), _ => .bind (Conductor.restore_upholds m) fun _ => .pure _
  | .restore (.kept key), _ => by
    refine .bind (.read _) fun m => ?_
    cases m with
    | some m => exact .bind (Conductor.restore_upholds m) fun _ => .pure _
    | none => exact .pure _
  | .ask query, _ => .read _
  | .edit change, _ => .of_alike change.apply_alike
  | .panic message, _ => .halt _
  | .holdStep _ _, _ =>
      .bind Hands.resolver_upholds fun _ => .bind (Hands.put_upholds _) fun _ => .pure _
  | .holdTrack _ _ _, _ =>
      .bind Hands.resolver_upholds fun _ => .bind (Hands.put_upholds _) fun _ => .pure _
  | .holdSequence _ _, _ =>
      .bind Hands.resolver_upholds fun _ => .bind (Hands.put_upholds _) fun _ => .pure _
  | .enterHeld slot, _ => Hands.playPart_upholds fun x => Cue.enter_alike (c := Hands.cueOf slot)
      trivial (Step.enter_alike x _ trivial ((Conductor.userCode_upholds hrun "host").step x))
  | .exitHeld slot, _ => Hands.playPart_upholds fun x => Cue.exit_alike (c := Hands.cueOf slot)
      trivial (Step.exit_alike x _ ((Conductor.userCode_upholds hrun "host").step x))
  | .tickHeld slot dt, _ => Hands.playPart_upholds fun x => Cue.tick_alike (c := Hands.cueOf slot)
      trivial (Step.tick_alike x _ trivial rfl ((Conductor.userCode_upholds hrun "host").step x))
  | .tickTrack slot dt, _ => Hands.playTrack_upholds fun t => Track.tick_alike
      (driveChild_alike t.steps (Hands.cueOf slot) trivial rfl
        ((Conductor.userCode_upholds hrun "host").steps t.steps))
  | .cancelTrack slot, _ => Hands.playTrack_upholds fun t => Track.cancel_alike
      (exitChild_alike t.steps (Hands.cueOf slot) trivial
        ((Conductor.userCode_upholds hrun "host").steps t.steps))
  | .rewindTrack _, _ => Hands.playTrack_upholds fun _ => .change _
  | .registerHeld slot, _ => Hands.register_upholds slot

/-- Whatever a session does. -/
theorem Session.upholds (hpause : ∀ n f, (Conductor.setPaused n f).Upholds I.holds) {calm : Bool}
    {s t : Stage} (h : Session calm s t) (hs : I.holds s) : I.holds t := by
  induction h with
  | refl s => exact hs
  | halted _ ih => exact ih hs
  | command run c _ _ hcallbacks ih =>
    have hrun : run.Upholds I.holds := fun c => .bind (hcallbacks c) fun _ => .note rfl
    exact dispatch_upholds hrun c (fun n _ => hpause n) _ (ih hs)

end

end Sequencer
