import Sequencer.Proofs.Unrelated.Hands

/-!
# Commands of one, of others and of nobody

A command names a sequence, or works on what the host holds in its hands, or names nobody. On a stage
where the sequences of a name are among others, a command that names them does what it does where they
are alone. One for others leaves the relation to that stage as it is. One that names nobody may be
given on both.
-/

set_option autoImplicit false

namespace Sequencer

inductive Addressee where
  | nobody
  /-- What the host holds in its hands. -/
  | hands
  | sequence (name : String)
deriving DecidableEq

def Command.addressee (s : Stage) : Command → Addressee
  | .register o => .sequence o.name
  | .start name => .sequence name
  | .stop name => .sequence name
  | .pause name => .sequence name
  | .resume name => .sequence name
  | .togglePause name => .sequence name
  | .reset name => .sequence name
  | .remove name => .sequence name
  | .capture name _ => .sequence name
  | .restore (.at b) => .sequence b.sequence
  | .restore (.kept key) =>
    match s.host.bookmarks.get? key with
    | some b => .sequence b.sequence
    | none => .nobody
  | .ask (.isPaused name) => .sequence name
  | .ask (.isRunning name) => .sequence name
  | .ask (.contains name) => .sequence name
  | .ask _ => .nobody
  | .tick _ _ => .nobody
  | .edit _ => .nobody
  | .panic _ => .nobody
  | .holdSequence _ o => .sequence o.name
  | .registerHeld slot =>
    match s.held.get? slot with
    | some (.sequence q) => .sequence q.name
    | _ => .hands
  | .holdStep _ _ => .hands
  | .enterHeld _ => .hands
  | .tickHeld _ _ => .hands
  | .exitHeld _ => .hands
  | .holdTrack _ _ _ => .hands
  | .tickTrack _ _ => .hands
  | .cancelTrack _ => .hands
  | .rewindTrack _ => .hands

/-- Brings only what keeps to itself: a sequence of the name with barriers of its own, another sequence
with other barriers, or steps that the host drives by hand, called for `host`, with other barriers. -/
def Command.Suits (name : String) (own : String → Prop) : Command → Prop
  | .register o => o.Fits (.apart (· = name) own) ∨ o.Fits (.apart (· ≠ name) (¬ own ·))
  | .holdSequence _ o => o.Fits (.apart (· = name) own) ∨ o.Fits (.apart (· ≠ name) (¬ own ·))
  | .holdStep _ x => "host" ≠ name ∧ x.Each (Step.KeepsTo (¬ own ·)) Question.IsOwn
  | .holdTrack _ l _ => "host" ≠ name ∧ stepsEach (Step.KeepsTo (¬ own ·)) Question.IsOwn l
  | _ => True

variable {name : String} {own : String → Prop} {ids : List Nat} {n : Nat}

/-- What is brought under the name is one of its sequences. -/
theorem Outline.fits_of_name_eq {o : Outline Command}
    (ho : o.Fits (.apart (· = name) own) ∨ o.Fits (.apart (· ≠ name) (¬ own ·)))
    (hn : o.name = name) : o.Fits (.apart (· = name) own) :=
  ho.resolve_right fun h => h.named hn

theorem Outline.fits_of_name_ne {o : Outline Command}
    (ho : o.Fits (.apart (· = name) own) ∨ o.Fits (.apart (· ≠ name) (¬ own ·)))
    (hn : o.name ≠ name) : o.Fits (.apart (· ≠ name) (¬ own ·)) :=
  ho.resolve_left fun h => hn h.named

namespace Alone

variable {s t : Stage}

theorem named? (h : Alone name own ids n s t) :
    Option.Rel Sequence.Akin (s.named? name) (t.named? name) := by
  have hfind := h.find
  simp only [Stage.named?]
  generalize s.find? name = a at hfind
  generalize t.find? name = b at hfind
  cases hfind with
  | none => exact .none
  | some hm => exact .some (h.akin _ _ hm)

theorem info (h : Alone name own ids n s t) :
    (t.named? name).map (·.info) = (s.named? name).map (·.info) := by
  have hnamed := h.named?
  generalize s.named? name = a at hnamed
  generalize t.named? name = b at hnamed
  cases hnamed with
  | none => rfl
  | some hpq => exact congrArg some hpq.info

theorem isRunning (h : Alone name own ids n s t) : t.isRunning name = s.isRunning name := by
  have hinfo := congrArg (fun q => (q.map (·.running)).getD false) h.info
  rw [Option.map_map, Option.map_map] at hinfo
  exact hinfo

theorem isPaused (h : Alone name own ids n s t) : t.isPaused name = s.isPaused name := by
  have hinfo := congrArg (fun q => (q.map (·.paused)).getD false) h.info
  rw [Option.map_map, Option.map_map] at hinfo
  exact hinfo

theorem contains (h : Alone name own ids n s t) :
    (t.find? name).isSome = (s.find? name).isSome := by
  have hfind := h.find
  generalize s.find? name = a at hfind
  generalize t.find? name = b at hfind
  cases hfind <;> rfl

end Alone

def Among (name : String) (own : String → Prop) (s t : Stage) : Prop :=
  ∃ ids n, Alone name own ids n s t

namespace Among

variable {α : Type} {s t : Stage} {x y : Act α}

/-- What is done to one of them does the same to it alone. -/
theorem echo (h : Among name own s t)
    (hxy : ∀ ids n, Act.Accords (.kin name own ids n) x y) :
    (y t).1 = (x s).1 ∧ Among name own (x s).2 (y t).2 := by
  obtain ⟨ids, n, h⟩ := h
  obtain ⟨hr, hst⟩ := hxy ids n s t h
  exact ⟨hr.eq, ids, n, hst⟩

/-- What is done to another goes unnoticed. -/
theorem ignore (h : Among name own s t) (hx : ∀ ids n, x.Unnoticed name own ids n) :
    Among name own (x s).2 t := by
  obtain ⟨ids, n, h⟩ := h
  exact ⟨ids, n, (hx ids n s t h).2⟩

theorem bystand (h : Among name own s t)
    (hx : ∀ ids n alone, Act.Accords (.bystanders name own ids n alone) x x) :
    Among name own (x s).2 t :=
  h.ignore fun ids n => .of_accords (hx ids n)

end Among

/-- What is made of a result in the end changes nothing else. -/
theorem Act.return_apply {α β : Type} (x : Act α) (f : α → β) (s : Stage) :
    (x >>= fun a => pure (f a)) s = ((x s).1.map f, (x s).2) := by
  rw [Act.bind_apply]
  rcases x s with ⟨e | a, u⟩ <;> rfl

namespace Conductor

variable {s t : Stage} {p q : Sequence}

theorem enroll_echo (h : Among name own s t) (hp : p.Fits (.apart (· = name) own))
    (hpq : p.Akin q) :
    (enroll q t).1 = (enroll p s).1 ∧ Among name own (enroll p s).2 (enroll q t).2 := by
  obtain ⟨ids, n, h⟩ := h
  have hfind := h.find
  have hname : p.name = name := hp.named
  generalize hs : s.find? name = a at hfind
  generalize ht : t.find? name = b at hfind
  simp only [enroll, Act.bind_apply, Act.read, hpq.name, hname, hs, ht]
  cases hfind with
  | some hm => exact ⟨rfl, ids, n, h⟩
  | none =>
    refine ⟨rfl, ids ++ [n], n + 1, Alone.enroll ?_ hpq hp⟩
    exact (h.backdropLeft (.note _ rfl)).backdropRight (.note _ rfl)

theorem enroll_ignored (h : Among name own s t)
    (hp : p.Fits (.apart (· ≠ name) (¬ own ·))) : Among name own (enroll p s).2 t := by
  obtain ⟨ids, n, h⟩ := h
  simp only [enroll, Act.bind_apply, Act.read]
  split
  · exact ⟨ids, n, h⟩
  · exact ⟨ids, n + 1, (h.backdropLeft (.note _ rfl)).enrollOther hp⟩

theorem register_apply (o : Outline Command) (s : Stage) :
    register o s = enroll (Sequence.build s.host.resolve o) s := by
  rw [register, Act.bind_apply]
  rfl

/-- A bookmark is captured of the sequence that is named. -/
theorem capture_other {m : String} {b : Bookmark} (h : Alone name own ids n s t) (hm : m ≠ name)
    (hb : (capture m s).1 = .ok (some b)) : b.sequence ≠ name := by
  rw [capture] at hb
  cases hf : s.find? m with
  | none =>
    rw [onNamed_none hf] at hb
    cases hb
  | some i =>
    rw [onNamed_some hf] at hb
    obtain ⟨hi, hni⟩ := h.named m i hm hf
    have hname := (h.others i hi hni).named
    obtain rfl := Option.some.inj (Except.ok.inj hb)
    exact hname

end Conductor

namespace Hands

variable {s t : Stage} {slot : String}

theorem holdSequence_echo (h : Among name own s t) (slot : String) {o : Outline Command}
    (ho : o.Fits (.apart (· = name) own)) :
    (holdSequence slot o t).1 = (holdSequence slot o s).1 ∧
      Among name own (holdSequence slot o s).2 (holdSequence slot o t).2 := by
  obtain ⟨ids, n, h⟩ := h
  have hakin := ho.build_akin s.host.resolve t.host.resolve
  exact ⟨congrArg (fun i => Except.ok (Reply.sequence i)) hakin.info, ids, n,
    h.hold slot hakin (ho.build _)⟩

theorem register_echo (h : Among name own s t) {p : Sequence}
    (hs : s.held.get? slot = some (.sequence p)) (hn : p.name = name) :
    (register slot t).1 = (register slot s).1 ∧
      Among name own (register slot s).2 (register slot t).2 := by
  obtain ⟨ids, n, h⟩ := h
  have hheld := h.held slot _ hs
  generalize ht : t.held.get? slot = b at hheld
  cases hheld with
  | other hp => exact absurd hn hp.named
  | mine hp hpq =>
    obtain ⟨hr, hu⟩ := Conductor.enroll_echo ⟨ids, n, h.empty slot⟩ hp hpq
    simp only [register, hs, ht]
    exact ⟨congrArg _ hr, hu⟩

/-- Whatever else is in the slot. -/
theorem register_ignored (h : Among name own s t)
    (hn : ∀ p, s.held.get? slot = some (.sequence p) → p.name ≠ name) :
    Among name own (register slot s).2 t := by
  unfold register
  split
  · rename_i p hs
    obtain ⟨ids, n, h⟩ := h
    have hheld := h.held slot _ hs
    generalize t.held.get? slot = b at hheld
    cases hheld with
    | mine hp _ => exact absurd hp.named (hn p hs)
    | other hp => exact Conductor.enroll_ignored ⟨ids, n, h.emptyOther slot⟩ hp
  · exact h

end Hands

section

variable {run : Runner} {s t : Stage} {c : Command} {key slot m : String}

namespace Command

theorem addressee_kept {b : Bookmark} (hb : s.host.bookmarks.get? key = some b) :
    (Command.restore (.kept key)).addressee s = .sequence b.sequence := by
  simp only [addressee, hb]

theorem addressee_unkept (hb : s.host.bookmarks.get? key = none) :
    (Command.restore (.kept key)).addressee s = .nobody := by
  simp only [addressee, hb]

theorem addressee_held {p : Sequence} (hs : s.held.get? slot = some (.sequence p)) :
    (Command.registerHeld slot).addressee s = .sequence p.name := by
  simp only [addressee, hs]

end Command

theorem dispatch_kept {b : Bookmark} (hb : s.host.bookmarks.get? key = some b) :
    dispatch run (.restore (.kept key)) s = dispatch run (.restore (.at b)) s := by
  simp only [dispatch, Act.bind_apply, Act.read, hb]

theorem dispatch_unkept (hb : s.host.bookmarks.get? key = none) :
    dispatch run (.restore (.kept key)) s = (.ok .senseless, s) := by
  simp only [dispatch, Act.bind_apply, Act.read, hb]
  rfl

/-- The same on the stage where they are alone, unless it is for others. -/
theorem Among.addressee (h : Among name own s t)
    (ha : c.addressee s = .nobody ∨ c.addressee s = .sequence name) :
    c.addressee t = c.addressee s := by
  obtain ⟨ids, n, h⟩ := h
  cases c with
  | ask query => cases query <;> rfl
  | restore place =>
    cases place with
    | «at» b => rfl
    | kept key =>
      cases hb : s.host.bookmarks.get? key with
      | none => rw [Command.addressee_unkept hb, Command.addressee_unkept (h.unkept key hb)]
      | some b =>
        rw [Command.addressee_kept hb] at ha ⊢
        rcases ha with ha | ha
        · cases ha
        · rw [Command.addressee_kept (h.kept key b hb (Addressee.sequence.inj ha))]
  | registerHeld slot =>
    simp only [Command.addressee] at ha
    split at ha
    · rename_i p hs
      have hheld := h.held slot _ hs
      generalize ht : t.held.get? slot = b at hheld
      cases hheld with
      | mine hp hpq => rw [Command.addressee_held hs, Command.addressee_held ht, hpq.name]
      | other hp => exact absurd (Addressee.sequence.inj (ha.resolve_left nofun)) hp.named
    · rcases ha with ha | ha <;> cases ha
  | _ => rfl

/-- A query about the name gets the same answer. -/
theorem Alone.answer (h : Alone name own ids n s t) {query : Query}
    (ha : (Command.ask query).addressee s = .sequence name) : query.answer t = query.answer s := by
  cases query with
  | isPaused m =>
    obtain rfl := Addressee.sequence.inj ha
    exact congrArg Reply.yesNo h.isPaused
  | isRunning m =>
    obtain rfl := Addressee.sequence.inj ha
    exact congrArg Reply.yesNo h.isRunning
  | contains m =>
    obtain rfl := Addressee.sequence.inj ha
    exact congrArg Reply.yesNo h.contains
  | _ => cases ha

variable (hrun : run.SparesOthers)

include hrun

/-- A command that names the sequences. -/
theorem dispatch_echo (hc : c.Suits name own) (h : Among name own s t)
    (ha : c.addressee s = .sequence name) :
    (dispatch run c t).1 = (dispatch run c s).1 ∧
      Among name own (dispatch run c s).2 (dispatch run c t).2 := by
  have hattends : ∀ ids n, (Accord.kin name own ids n).Attends run run := fun ids n =>
    (Accord.kin_carries hrun).toAttends
  cases c with
  | register o =>
    have ho := Outline.fits_of_name_eq hc (Addressee.sequence.inj ha)
    obtain ⟨hr, hu⟩ := Conductor.enroll_echo h (ho.build s.host.resolve)
      (ho.build_akin s.host.resolve t.host.resolve)
    rw [dispatch, Act.return_apply, Act.return_apply, Conductor.register_apply,
      Conductor.register_apply, hr]
    exact ⟨rfl, hu⟩
  | start m =>
    exact h.echo fun ids n => .bind
      (Conductor.start_accords (hattends ids n) (Addressee.sequence.inj ha)) fun _ => .pure _
  | stop m =>
    exact h.echo fun ids n => .bind
      (Conductor.stop_accords (hattends ids n) (Addressee.sequence.inj ha)) fun _ => .pure _
  | pause m | resume m | togglePause m =>
    exact h.echo fun ids n => .bind
      (Conductor.setPaused_accords (Addressee.sequence.inj ha) _) fun _ => .pure _
  | reset m =>
    exact h.echo fun ids n => .bind
      (Conductor.reset_accords (Addressee.sequence.inj ha)) fun _ => .pure _
  | remove m =>
    exact h.echo fun ids n => .bind
      (Conductor.remove_accords (hattends ids n) (Addressee.sequence.inj ha)) fun _ => .pure _
  | capture m keepAs =>
    refine h.echo fun ids n =>
      .bind (Conductor.capture_accords (Addressee.sequence.inj ha)) fun b => ?_
    cases keepAs with
    | none => exact .pure _
    | some key =>
      cases b with
      | none => exact .pure _
      | some b => exact .bind (.change fun s t hst => Alone.keep hst key b) fun _ => .pure _
  | restore place =>
    cases place with
    | «at» b =>
      exact h.echo fun ids n => .bind
        (Conductor.restore_accords (Addressee.sequence.inj ha)) fun _ => .pure _
    | kept key =>
      cases hb : s.host.bookmarks.get? key with
      | none =>
        rw [Command.addressee_unkept hb] at ha
        cases ha
      | some b =>
        rw [Command.addressee_kept hb] at ha
        have hname := Addressee.sequence.inj ha
        have hbt : t.host.bookmarks.get? key = some b := by
          obtain ⟨ids, n, h⟩ := h
          exact h.kept key b hb hname
        rw [dispatch_kept hb, dispatch_kept hbt]
        exact h.echo fun ids n => .bind (Conductor.restore_accords hname) fun _ => .pure _
  | ask query =>
    have hquery := h
    obtain ⟨ids, n, hst⟩ := hquery
    exact ⟨congrArg Except.ok (hst.answer ha), h⟩
  | holdSequence slot o =>
    exact Hands.holdSequence_echo h slot (Outline.fits_of_name_eq hc (Addressee.sequence.inj ha))
  | registerHeld slot =>
    simp only [Command.addressee] at ha
    split at ha
    · rename_i p hs
      exact Hands.register_echo h hs (Addressee.sequence.inj ha)
    · cases ha
  | _ => cases ha

/-- A command for others. -/
theorem dispatch_ignored (hc : c.Suits name own) (h : Among name own s t)
    (hn : c.addressee s ≠ .nobody) (ha : c.addressee s ≠ .sequence name) :
    Among name own (dispatch run c s).2 t := by
  have hattends : ∀ ids n alone, (Accord.bystanders name own ids n alone).Attends run run :=
    fun ids n alone => (Accord.bystanders_carries hrun alone).toAttends
  have hother : ∀ {m}, c.addressee s = .sequence m → m ≠ name := fun hm he => ha (hm.trans (he ▸ rfl))
  cases c with
  | register o =>
    have ho := Outline.fits_of_name_ne hc (hother rfl)
    rw [dispatch, Act.return_apply, Conductor.register_apply]
    exact Conductor.enroll_ignored h (ho.build s.host.resolve)
  | start m =>
    exact h.bystand fun ids n alone => .bind
      (Conductor.start_accords (hattends ids n alone) (hother rfl)) fun _ => .pure _
  | stop m =>
    exact h.bystand fun ids n alone => .bind
      (Conductor.stop_accords (hattends ids n alone) (hother rfl)) fun _ => .pure _
  | pause m | resume m | togglePause m =>
    exact h.bystand fun ids n alone => .bind
      (Conductor.setPaused_accords (hother rfl) _) fun _ => .pure _
  | reset m =>
    exact h.bystand fun ids n alone => .bind
      (Conductor.reset_accords (hother rfl)) fun _ => .pure _
  | remove m =>
    exact h.bystand fun ids n alone => .bind
      (Conductor.remove_accords (hattends ids n alone) (hother rfl)) fun _ => .pure _
  | capture m keepAs =>
    obtain ⟨ids, n, h⟩ := h
    have hcaptured : (Conductor.capture m).Unnoticed name own ids n :=
      .of_accords fun alone => Conductor.capture_accords (hother rfl)
    have hu := (hcaptured s t h).2
    have hb := fun b => Conductor.capture_other (b := b) h (hother rfl)
    rw [dispatch, Act.bind_apply]
    generalize Conductor.capture m s = r at hu hb ⊢
    rcases r with ⟨e | b, u⟩
    · exact ⟨ids, n, hu⟩
    · cases keepAs with
      | none => exact ⟨ids, n, hu⟩
      | some key =>
        cases b with
        | none => exact ⟨ids, n, hu⟩
        | some b => exact ⟨ids, n, hu.keepOther key (hb b rfl)⟩
  | restore place =>
    cases place with
    | «at» b =>
      exact h.bystand fun ids n alone => .bind
        (Conductor.restore_accords (hother rfl)) fun _ => .pure _
    | kept key =>
      cases hb : s.host.bookmarks.get? key with
      | none => exact absurd (Command.addressee_unkept hb) hn
      | some b =>
        have hname := hother (Command.addressee_kept hb)
        rw [dispatch_kept hb]
        exact h.bystand fun ids n alone => .bind (Conductor.restore_accords hname) fun _ => .pure _
  | ask query => exact h
  | holdStep slot x => exact h.ignore fun ids n => Hands.holdStep_unnoticed slot hc.1 hc.2
  | enterHeld slot => exact h.ignore fun ids n => Hands.enter_unnoticed hrun slot
  | tickHeld slot dt => exact h.ignore fun ids n => Hands.tick_unnoticed hrun slot dt
  | exitHeld slot => exact h.ignore fun ids n => Hands.exit_unnoticed hrun slot
  | holdTrack slot l onFailure =>
    exact h.ignore fun ids n => Hands.holdTrack_unnoticed slot hc.1 onFailure hc.2
  | tickTrack slot dt => exact h.ignore fun ids n => Hands.tickTrack_unnoticed hrun slot dt
  | cancelTrack slot => exact h.ignore fun ids n => Hands.cancelTrack_unnoticed hrun slot
  | rewindTrack slot => exact h.ignore fun ids n => Hands.rewindTrack_unnoticed slot
  | holdSequence slot o =>
    exact h.ignore fun ids n =>
      Hands.holdSequence_unnoticed slot (Outline.fits_of_name_ne hc (hother rfl))
  | registerHeld slot =>
    exact Hands.register_ignored h fun p hs => hother (Command.addressee_held hs)
  | tick dt count => exact absurd rfl hn
  | edit change => exact absurd rfl hn
  | panic message => exact absurd rfl hn

/-- A command that names nobody. -/
theorem dispatch_nobody (h : Among name own s t) (hn : c.addressee s = .nobody) :
    Among name own (dispatch run c s).2 (dispatch run c t).2 := by
  cases c with
  | tick dt count =>
    cases count with
    | none => exact (h.echo fun ids n => .bind (Conductor.tick_kin hrun dt) fun _ => .pure _).2
    | some n =>
      exact (h.echo fun ids m => .bind (Conductor.tickMany_kin hrun dt 0 n) fun _ => .pure _).2
  | ask query => exact h
  | panic message => exact h
  | edit change =>
    obtain ⟨ids, n, h⟩ := h
    cases change with
    | arrive b => exact ⟨ids, n, h.arrive b⟩
    | _ =>
      exact ⟨ids, n, (h.backdropLeft (Change.apply_isHarmless _ rfl s).2).backdropRight
        (Change.apply_isHarmless _ rfl t).2⟩
  | restore place =>
    cases place with
    | «at» b => cases hn
    | kept key =>
      cases hb : s.host.bookmarks.get? key with
      | none =>
        obtain ⟨ids, n, h⟩ := h
        rw [dispatch_unkept hb, dispatch_unkept (h.unkept key hb)]
        exact ⟨ids, n, h⟩
      | some b =>
        rw [Command.addressee_kept hb] at hn
        cases hn
  | registerHeld slot =>
    simp only [Command.addressee] at hn
    split at hn <;> cases hn
  | _ => cases hn

end

end Sequencer
