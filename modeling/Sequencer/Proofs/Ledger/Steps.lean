import Sequencer.Proofs.Ledger.Acts

/-!
# The books under the calls of steps

A play keeps the books and what is known of the progress in its hands. How plays are put together
says so of every step, by recursion on its tree; a barrier is the one step whose calls are taken
as a whole, since its answer depends on the books.
-/

set_option autoImplicit false

namespace Sequencer

structure Fact (π : Type) where
  holds : Stage → π → Prop
  lasts : ∀ {s t : Stage} {p : π}, s.Later t → holds s p → holds t p

def Fact.track {π : Type} (F : Fact π) : Fact (Track π) :=
  ⟨fun s t => F.holds s t.children, fun hl h => F.lasts hl h⟩

def Fact.lane {π : Type} (F : Fact π) : Fact (Lane π) :=
  ⟨fun s a => F.holds s a.child, fun hl h => F.lasts hl h⟩

def Play.Obeys {π α : Type} (B : BarrierFact) (R : Bool → Stage → Stage → Prop) (F : Fact π)
    (play : Play π α) : Prop :=
  ∀ p s, s.Holds B → F.holds s p →
    Fair B R (play (p, s)).1.isOk s (play (p, s)).2.2 ∧
      F.holds (play (p, s)).2.2 (play (p, s)).2.1

namespace Ledger

variable {B : BarrierFact} {R : Bool → Stage → Stage → Prop}

section

variable (L : Ledger B R) {π σ α β : Type} {F : Fact π} {G : Fact σ}

include L

theorem purePlay (a : α) : (Pure.pure a : Play π α).Obeys B R F :=
  fun _ _ hs h => ⟨L.fair_refl hs, h⟩

theorem changePlay {f : π → π} (hf : ∀ s p, F.holds s p → F.holds s (f p)) :
    (Play.change f).Obeys B R F := fun p s hs h => ⟨L.fair_refl hs, hf s p h⟩

theorem writePlay {p : π} (hp : ∀ s q, F.holds s q → F.holds s p) :
    (Play.write p).Obeys B R F := fun q s hs h => ⟨L.fair_refl hs, hp s q h⟩

omit L in
theorem onStage {act : Act α} (h : act.Obeys B R) : (Play.onStage act).Obeys B R F :=
  fun _ s hs hp => ⟨h s hs, F.lasts (h s hs).later hp⟩

theorem notePlay {e : Entry} (he : e.isOrdinary = true) : (Play.note e).Obeys B R F :=
  onStage (L.noteAct he)

theorem sayPlay (n : Notice) : (Play.say n).Obeys B R F := L.notePlay rfl

theorem settings : Play.settings.Obeys B R F := onStage (L.read _)

theorem bindPlay {x : Play π α} {f : α → Play π β} (hx : x.Obeys B R F)
    (hf : ∀ a, (f a).Obeys B R F) : (x >>= f).Obeys B R F := by
  intro p s hs hp
  obtain ⟨hfair, hq⟩ := hx p s hs hp
  rw [Play.bind_apply]
  rcases hr : x (p, s) with ⟨a | a, q, t⟩ <;> rw [hr] at hfair hq
  · exact ⟨hfair, hq⟩
  · obtain ⟨hfair', hq'⟩ := hf a q t hfair.holds hq
    exact ⟨L.fair_then hfair hfair', hq'⟩

omit L in
theorem readThen {f : π → Play π β} (hf : ∀ p, (f p).Obeys B R F) :
    (Play.read >>= f).Obeys B R F := fun p s hs hp => hf p p s hs hp

omit L in
theorem itePlay {c : Prop} [Decidable c] {x y : Play π α} (hx : x.Obeys B R F)
    (hy : y.Obeys B R F) : (if c then x else y).Obeys B R F := by
  split
  · exact hx
  · exact hy

omit L in
theorem part {get : σ → π} {put : π → σ → σ} {x : Play π α}
    (hget : ∀ s a, G.holds s a → F.holds s (get a))
    (hput : ∀ s a p, G.holds s a → F.holds s p → G.holds s (put p a)) (h : x.Obeys B R F) :
    (Play.part get put x).Obeys B R G := by
  intro a s hs ha
  obtain ⟨hfair, hp⟩ := h (get a) s hs (hget s a ha)
  exact ⟨hfair, hput _ a _ (G.lasts hfair.later ha) hp⟩

omit L in
/-- A play that needs less to be known, and keeps enough of it. -/
theorem within {F' : Fact π} {x : Play π α} (h : x.Obeys B R F')
    (hto : ∀ s p, F.holds s p → F'.holds s p)
    (hback : ∀ s p q, F.holds s p → F'.holds s q → F.holds s q) : x.Obeys B R F := by
  intro p s hs hp
  obtain ⟨hfair, hq⟩ := h p s hs (hto s p hp)
  exact ⟨hfair, hback _ p _ (F.lasts hfair.later hp) hq⟩

end

/-! Calls -/

section

variable (L : Ledger B R) {π : Type} {F : Fact π} {c : Cue} {x : Step Command}
  (hat : ∀ s p, F.holds s p → s.At c.site x)

include L hat

theorem calledPlay {call : Call} (hc : x.isBarrier = true → call = .exit) :
    (Play.note (.called c.site call)).Obeys B R F := by
  intro p s hs hp
  have hfair := L.fair_note hs (L.called (hat s p hp) hc)
  exact ⟨hfair, F.lasts hfair.later hp⟩

theorem returnedPlay {r : Option Status} (hr : x.isBarrier = true → r = none) :
    (Play.note (.returned c.site r)).Obeys B R F := by
  intro p s hs hp
  have hfair := L.fair_note hs (L.returned (hat s p hp) hr)
  exact ⟨hfair, F.lasts hfair.later hp⟩

theorem enterCall (hx : x.isBarrier = false) {body : Play π Unit} (h : body.Obeys B R F) :
    (c.enter body).Obeys B R F :=
  L.bindPlay (L.calledPlay hat fun hb => absurd hb (by simp [hx])) fun _ => L.bindPlay h fun _ =>
    L.returnedPlay hat fun _ => rfl

theorem exitCall {body : Play π Unit} (h : body.Obeys B R F) : (c.exit body).Obeys B R F :=
  L.bindPlay (L.calledPlay hat fun _ => rfl) fun _ => L.bindPlay h fun _ =>
    L.returnedPlay hat fun _ => rfl

theorem tickCall (hx : x.isBarrier = false) (dt : Float32) {body : Play π Status}
    (h : body.Obeys B R F) : (c.tick dt body).Obeys B R F :=
  L.bindPlay (L.calledPlay hat fun hb => absurd hb (by simp [hx])) fun _ => L.bindPlay h fun _ =>
    L.bindPlay (L.returnedPlay hat fun hb => absurd hb (by simp [hx])) fun _ => L.purePlay _

end

section

variable (L : Ledger B R) {π : Type} {F : Fact π}

include L

theorem drive (c : Cue) {source : Source} {label : String} {index : Nat} {dt : Float32}
    {fresh : Bool} {enter exit : Play π Unit} {tick : Play π Status}
    (he : (c.enter enter).Obeys B R F) (ht : (c.tick dt tick).Obeys B R F)
    (hx : (c.exit exit).Obeys B R F) :
    (c.drive source label index dt fresh enter tick exit).Obeys B R F := by
  have hopen : (c.openStep source label index fresh enter).Obeys B R F :=
    itePlay (L.bindPlay L.settings fun _ => itePlay (L.bindPlay (L.sayPlay _) fun _ => he) he)
      (L.purePlay ())
  have hclose : ∀ status, (c.closeStep source label index status exit).Obeys B R F := fun _ =>
    itePlay (L.bindPlay hx fun _ => L.bindPlay L.settings fun _ =>
      itePlay (L.sayPlay _) (L.purePlay ())) (L.purePlay ())
  exact L.bindPlay hopen fun _ => L.bindPlay ht fun _ => L.bindPlay (hclose _) fun _ => L.purePlay _

omit L in
theorem onChildren {α : Type} {x : Play π α} (h : x.Obeys B R F) :
    (Track.onChildren x).Obeys B R F.track := part (fun _ _ h => h) (fun _ _ _ _ h => h) h

theorem changeTrack {f : Track π → Track π} (hf : ∀ t, (f t).children = t.children) :
    (Play.change f).Obeys B R F.track := by
  apply L.changePlay
  intro s t ht
  show F.holds s (f t).children
  rw [hf]
  exact ht

theorem tickTrack {length : Nat} {onFailure : OnFailure} {drive : Nat → Bool → Play π Status}
    (h : ∀ i fresh, (drive i fresh).Obeys B R F) :
    (Track.tick length onFailure drive).Obeys B R F.track := by
  refine readThen fun t => itePlay ?_ (L.purePlay _)
  refine L.bindPlay (L.changeTrack fun _ => rfl) fun _ => L.bindPlay (onChildren (h _ _)) fun _ => ?_
  exact itePlay (L.purePlay _) (L.bindPlay (L.changeTrack fun _ => rfl) fun _ =>
    itePlay (L.purePlay _) (L.purePlay _))

theorem cancelTrack {length : Nat} {exit : Nat → Play π Unit} (h : ∀ i, (exit i).Obeys B R F) :
    (Track.cancel length exit).Obeys B R F.track :=
  readThen fun _ => itePlay
    (L.bindPlay (onChildren (h _)) fun _ => L.changeTrack fun _ => rfl)
    (L.changeTrack fun _ => rfl)

theorem enterLane (c : Cue) {body : Play π Unit} (h : (c.enter body).Obeys B R F) :
    (Lane.enter c body).Obeys B R F.lane :=
  L.bindPlay (L.changePlay fun _ _ h => h) fun _ => part (fun _ _ h => h) (fun _ _ _ _ h => h) h

theorem tickLane (c : Cue) {dt : Float32} {body : Play π Status} {exit : Play π Unit}
    (ht : (c.tick dt body).Obeys B R F) (hx : (c.exit exit).Obeys B R F) :
    (Lane.tick c dt body exit).Obeys B R F.lane :=
  readThen fun _ => itePlay (L.purePlay _) <|
    L.bindPlay (part (fun _ _ h => h) (fun _ _ _ _ h => h) ht) fun _ =>
    itePlay (L.purePlay _) <|
    L.bindPlay (part (fun _ _ h => h) (fun _ _ _ _ h => h) hx) fun _ =>
    L.bindPlay (L.changePlay fun _ _ h => h) fun _ => L.purePlay _

theorem conclude (mode : Quorum) (owner : String) (settled : List Status) (pending : Nat) :
    (mode.conclude owner settled pending : Play π Status).Obeys B R F := by
  unfold Quorum.conclude
  split
  · exact itePlay (L.bindPlay (L.sayPlay _) fun _ => L.purePlay _) (L.purePlay _)
  · exact L.purePlay _

end

/-! What is known of the progress of steps -/

def stepFact (L : Ledger B R) (x : Step Command) (σ : Site) : Fact x.Progress :=
  ⟨fun s p => s.At σ x ∧ x.Holds B s.barriers p,
    fun hl h => ⟨h.1.later hl, L.step_later hl.counts x _ h.2⟩⟩

def childrenFact (L : Ledger B R) (x : Step Command) (σ : Site) (l : List (Step Command)) :
    Fact (Children l) :=
  ⟨fun s p => s.At σ x ∧ holdsChildren B l s.barriers p,
    fun hl h => ⟨h.1.later hl, L.children_later hl.counts l _ h.2⟩⟩

def nthFact (L : Ledger B R) (l : List (Step Command)) (σ : Site) (n : Nat) : Fact (Children l) :=
  ⟨fun s p => (∀ x, l[n]? = some x → s.At σ x) ∧ holdsChildren B l s.barriers p,
    fun hl h => ⟨fun x hx => (h.1 x hx).later hl, L.children_later hl.counts l _ h.2⟩⟩

def lanesFact (L : Ledger B R) (l : List (Step Command)) (σ : Site) (index : Nat) :
    Fact (Lanes l) :=
  ⟨fun s p => (∀ i x, l[i]? = some x → s.At (.child σ (index + i)) x) ∧
      holdsLanes B l s.barriers p,
    fun hl h => ⟨fun i x hx => (h.1 i x hx).later hl, L.lanes_later hl.counts l _ h.2⟩⟩

section

variable (L : Ledger B R) {α : Type}

theorem nth_of_child {x : Step Command} {σ : Site} {l : List (Step Command)} {i : Nat}
    {play : Play (Children l) α} (hl : ∀ y, l[i]? = some y → x.child? i = some y)
    (h : play.Obeys B R (L.nthFact l (.child σ i) i)) :
    play.Obeys B R (L.childrenFact x σ l) :=
  within h (fun _ _ h => ⟨fun y hy => h.1.child (hl y hy), h.2⟩) fun _ _ _ h hq => ⟨h.1, hq.2⟩

theorem nth_of_otherwise {x : Step Command} {σ : Site} {l : List (Step Command)} {i : Nat}
    {play : Play (Children l) α} (hl : ∀ y, l[i]? = some y → x.otherwise? i = some y)
    (h : play.Obeys B R (L.nthFact l (.otherwise σ i) i)) :
    play.Obeys B R (L.childrenFact x σ l) :=
  within h (fun _ _ h => ⟨fun y hy => h.1.otherwise (hl y hy), h.2⟩) fun _ _ _ h hq => ⟨h.1, hq.2⟩

end

section

variable (L : Ledger B R) {α : Type} {x : Step Command} {rest : List (Step Command)} {σ : Site}
  {n index : Nat}

theorem stepFact_at (s : Stage) (p : x.Progress) (h : (L.stepFact x σ).holds s p) : s.At σ x := h.1

theorem firstNth {play : Play x.Progress α} (h : play.Obeys B R (L.stepFact x σ)) :
    (Play.first play).Obeys B R (L.nthFact (x :: rest) σ 0) := by
  apply part _ _ h
  · exact fun s a ha => ⟨ha.1 x rfl, ha.2.1⟩
  · exact fun s a p ha hp => ⟨ha.1, hp.2, ha.2.2⟩

theorem secondNth {play : Play (Children rest) α} (h : play.Obeys B R (L.nthFact rest σ n)) :
    (Play.second play).Obeys B R (L.nthFact (x :: rest) σ (n + 1)) := by
  apply part _ _ h
  · exact fun s a ha => ⟨ha.1, ha.2.2⟩
  · exact fun s a p ha hp => ⟨ha.1, ha.2.1, hp.2⟩

theorem firstLane {play : Play (Lane x.Progress) α}
    (h : play.Obeys B R (L.stepFact x (.child σ index)).lane) :
    (Play.first play).Obeys B R (L.lanesFact (x :: rest) σ index) := by
  apply part _ _ h
  · exact fun s a ha => ⟨ha.1 0 x rfl, ha.2.1⟩
  · exact fun s a p ha hp => ⟨ha.1, hp.2, ha.2.2⟩

theorem secondLane {play : Play (Lanes rest) α}
    (h : play.Obeys B R (L.lanesFact rest σ (index + 1))) :
    (Play.second play).Obeys B R (L.lanesFact (x :: rest) σ index) := by
  apply part _ _ h
  · intro s a ha
    refine ⟨fun i y hy => ?_, ha.2.2⟩
    rw [Nat.add_assoc, Nat.add_comm 1 i]
    exact ha.1 (i + 1) y hy
  · exact fun s a p ha hp => ⟨ha.1, ha.2.1, hp.2⟩

/-- The children of a parallel step are its lanes. -/
theorem lanes_of_parallel {mode : Quorum} {steps : List (Step Command)}
    {play : Play (Lanes steps) α} (h : play.Obeys B R (L.lanesFact steps σ 0)) :
    play.Obeys B R (L.stepFact (.parallel mode steps) σ) := by
  apply within h
  · intro s a ha
    refine ⟨fun i y hy => ha.1.child ?_, ha.2⟩
    rw [Nat.zero_add]
    exact hy
  · exact fun s a b ha hb => ⟨ha.1, hb.2⟩

end

/-! Barriers -/

theorem later_entering (s : Stage) (σ : Site) (name : String) (n : Notice) :
    s.Later (s.entering σ name n) := (later_arrive s name).trans (.of_same rfl rfl)

theorem enterBarrier (L : Ledger B R) (cue : Cue) (name : String) (expected : UInt32) :
    (cue.enter (Simple.arrive cue.owner name expected)).Obeys B R
      (L.stepFact (.barrier name expected) cue.site) := by
  intro p s hs hp
  have hl := later_entering s cue.site name (.arrived cue.owner name
    (((s.note (.called cue.site .enter)).arrive name).barriers.count name) expected)
  exact ⟨L.fair_of_books hs hl rfl rfl (L.entering _ hp.1), hp.1.later hl,
    L.entered name expected _⟩

/-- A barrier answers by the count, and at most says that it still waits. -/
theorem barrier_apply (owner name : String) (expected : UInt32) (dt : Float32)
    (p : BarrierProgress) (s : Stage) :
    ∃ q said, Simple.barrier owner name expected dt (p, s) =
        (.ok (p.verdict (s.barriers.count name) expected), q, s.saying said) ∧
      ((p.released || decide (s.barriers.count name ≥ expected)) = true ∧
          q = { p with released := true } ∨
        ∃ waited warned, q = { p with waited, warned }) := by
  by_cases hr : (p.released || decide (s.barriers.count name ≥ expected)) = true
  · refine ⟨{ p with released := true }, none, ?_, .inl ⟨hr, rfl⟩⟩
    simp only [Simple.barrier, Play.bind_apply, Play.onStage, Act.read, Play.read,
      BarrierProgress.verdict, hr, if_true]
    rfl
  · let waited := p.waited + dt
    let late := Simple.overdue s.settings.barrierWarnAfter p waited
    refine ⟨{ p with waited, warned := p.warned || late }, if late then
      some (.stillWaiting owner name waited (s.barriers.count name) expected) else none, ?_,
      .inr ⟨_, _, rfl⟩⟩
    simp only [Simple.barrier, Play.bind_apply, Play.onStage, Act.read, Play.read,
      BarrierProgress.verdict, hr, Bool.false_eq_true, if_false, Play.settings, Play.write]
    cases h : late <;> simp only [late, waited] at h <;> rw [h] <;> rfl

theorem answering_same (s : Stage) (σ : Site) (dt : Float32) (said : Option Notice)
    (status : Status) : (s.answering σ dt said status).sequences = s.sequences ∧
      (s.answering σ dt said status).barriers = s.barriers ∧
      (s.answering σ dt said status).held = s.held := by
  cases said <;> exact ⟨rfl, rfl, rfl⟩

theorem tickBarrier (L : Ledger B R) (cue : Cue) (name : String) (expected : UInt32)
    (dt : Float32) : (cue.tick dt (Simple.barrier cue.owner name expected dt)).Obeys B R
      (L.stepFact (.barrier name expected) cue.site) := by
  intro (p : BarrierProgress) s hs hp
  obtain ⟨q, said, hplay, hq⟩ := barrier_apply cue.owner name expected dt p
    (s.note (.called cue.site (.tick dt)))
  obtain ⟨hsequences, hbarriers, hheld⟩ := answering_same s cue.site dt said
    (p.verdict (s.barriers.count name) expected)
  have hl := Stage.Later.of_same hsequences hbarriers
  have hfair := L.fair_of_books hs hl hsequences hheld (L.answering dt said hp.1 hp.2)
  have hB : B name expected s.barriers q := by
    rcases hq with ⟨hr, rfl⟩ | ⟨waited, warned, rfl⟩
    · exact L.released hp.2 hr
    · exact L.waiting waited warned hp.2
  have hend : (fun r : Except Halt Status × BarrierProgress × Stage => Fair B R r.1.isOk s r.2.2 ∧
      r.2.2.At cue.site (.barrier name expected) ∧ B name expected r.2.2.barriers r.2.1)
      (cue.tick dt (Simple.barrier cue.owner name expected dt) (p, s)) := by
    rw [Cue.tick_apply, hplay]
    exact ⟨hfair, hp.1.later hl, L.later hl.counts hB⟩
  exact hend

/-! Steps -/

section

variable (L : Ledger B R) {run : Runner}

include L

theorem inquire (hrun : run.Obeys B R) (asker : Asker) (owner : String) (polls : Nat)
    (q : Question Command) : (Sequencer.inquire run asker owner polls q).Obeys B R :=
  L.bind (L.performAll hrun q.code) fun _ => L.ask asker owner polls q.toCondition

theorem choose {π ρ : Type} {F : Fact (ChoiceProgress π ρ)} (hrun : run.Obeys B R)
    (hF : ∀ s p q, F.holds s p → q.yes.children = p.yes.children →
      q.no.children = p.no.children → F.holds s q) (cue : Cue) (question : Question Command) :
    (ChoiceProgress.enter run cue question).Obeys B R F := by
  have hchange : ∀ {f : ChoiceProgress π ρ → ChoiceProgress π ρ},
      (∀ p, (f p).yes.children = p.yes.children) → (∀ p, (f p).no.children = p.no.children) →
      (Play.change f).Obeys B R F :=
    fun hy hn => L.changePlay fun s p hp => hF s p _ hp (hy p) (hn p)
  exact L.bindPlay (hchange (fun _ => rfl) fun _ => rfl) fun _ => readThen fun _ =>
    L.bindPlay (onStage (L.inquire hrun _ _ _ _)) fun _ =>
      itePlay (hchange (fun _ => rfl) fun _ => rfl) (hchange (fun _ => rfl) fun _ => rfl)

theorem scriptedTick {F : Fact Nat} (hF : ∀ s p q, F.holds s p → F.holds s q)
    (id : Option String) (owner : String) (script : List Status) (dt : Float32) :
    (Simple.scriptedTick id owner script dt).Obeys B R F := by
  refine readThen fun used => L.bindPlay (L.writePlay fun s q => hF s q _) fun _ => ?_
  cases id with
  | none => exact L.purePlay _
  | some id => exact L.bindPlay (L.notePlay rfl) fun _ => L.purePlay _

theorem await {F : Fact AwaitProgress} (hrun : run.Obeys B R)
    (hF : ∀ s p q, F.holds s p → F.holds s q) (cue : Cue) (question : Question Command)
    (limit : Option Float32) (policy : Expiry) (dt : Float32) :
    (Simple.await run cue question limit policy dt).Obeys B R F := by
  refine L.bindPlay (L.changePlay fun s p => hF s p _) fun _ => readThen fun _ =>
    L.bindPlay (onStage (L.inquire hrun _ _ _ _)) fun _ => itePlay (L.purePlay _) ?_
  refine readThen fun _ => L.bindPlay (L.changePlay fun s p => hF s p _) fun _ => ?_
  cases limit with
  | none => exact L.purePlay _
  | some bound => exact itePlay (L.bindPlay (L.sayPlay _) fun _ => L.purePlay _) (L.purePlay _)

theorem tween {F : Fact TweenProgress} (hF : ∀ s p q, F.holds s p → F.holds s q) (t : Tween)
    (owner : String) (dt : Float32) : (t.tick owner dt).Obeys B R F := by
  refine readThen fun p => L.bindPlay (onStage (L.read _)) fun current => ?_
  split
  · exact L.bindPlay (L.writePlay fun s q => hF s q _) fun _ =>
      L.bindPlay (onStage (L.setPose _ _)) fun _ =>
        itePlay (L.purePlay _) (L.bindPlay (L.sayPlay _) fun _ => L.purePlay _)
  · exact L.bindPlay (L.sayPlay _) fun _ => L.purePlay _

theorem exitStep (hrun : run.Obeys B R) (x : Step Command) (cue : Cue) :
    (cue.exit (x.exit run cue)).Obeys B R (L.stepFact x cue.site) := by
  apply L.exitCall L.stepFact_at
  unfold Step.exit
  split
  · exact L.notePlay rfl
  · exact onStage (L.performAll hrun _)
  · exact L.purePlay ()

end

variable {run : Runner}

theorem exitNth (L : Ledger B R) (hrun : run.Obeys B R) :
    (l : List (Step Command)) → (cue : Cue) → (n : Nat) →
    (exitNth run l cue n).Obeys B R (L.nthFact l cue.site n)
  | [], _, _ => L.purePlay ()
  | x :: _, cue, 0 => L.firstNth (L.exitStep hrun x cue)
  | _ :: rest, cue, n + 1 => L.secondNth (L.exitNth hrun rest cue n)

mutual

theorem enterStep (L : Ledger B R) (hrun : run.Obeys B R) : (x : Step Command) → (cue : Cue) →
    (cue.enter (x.enter run cue)).Obeys B R (L.stepFact x cue.site)
  | .barrier name expected, cue => L.enterBarrier cue name expected
  | .choose question yes no, cue => by
    apply L.enterCall L.stepFact_at rfl
    apply L.choose hrun
    intro s p q hp hy hn
    refine ⟨hp.1, ?_, ?_⟩
    · rw [hy]
      exact hp.2.1
    · rw [hn]
      exact hp.2.2
  | .parallel _ steps, cue =>
    L.enterCall L.stepFact_at rfl (L.lanes_of_parallel (L.enterLanes hrun steps cue 0))
  | .bounded _ _ _, _ => L.enterCall L.stepFact_at rfl (L.changePlay fun _ _ h => h)
  | .retry _ _, _ => L.enterCall L.stepFact_at rfl (L.changePlay fun _ _ h => h)
  | .group _, _ => L.enterCall L.stepFact_at rfl (L.changePlay fun _ _ h => h)
  | .wait _, _ => L.enterCall L.stepFact_at rfl (L.writePlay fun _ _ h => h)
  | .frames _, _ => L.enterCall L.stepFact_at rfl (L.writePlay fun _ _ h => h)
  | .tween _, _ => L.enterCall L.stepFact_at rfl (readThen fun _ =>
      L.bindPlay (onStage (L.read _)) fun _ => L.writePlay fun _ _ h => h)
  | .await _ _ _, _ => L.enterCall L.stepFact_at rfl (L.changePlay fun _ _ h => h)
  | .probe _ _, _ => L.enterCall L.stepFact_at rfl (L.notePlay rfl)
  | .publish _, _ => L.enterCall L.stepFact_at rfl (L.purePlay ())
  | .invoke _ _, _ => L.enterCall L.stepFact_at rfl (L.purePlay ())
  | .component _ _ _, _ => L.enterCall L.stepFact_at rfl (L.purePlay ())
  | .call _, _ => L.enterCall L.stepFact_at rfl (L.purePlay ())
  | .startSequence _, _ => L.enterCall L.stepFact_at rfl (L.purePlay ())
  | .stopSequence _, _ => L.enterCall L.stepFact_at rfl (L.purePlay ())
  | .custom onEnter _ _ _, _ =>
    L.enterCall L.stepFact_at rfl (onStage (L.performAll hrun onEnter))

theorem enterLanes (L : Ledger B R) (hrun : run.Obeys B R) :
    (l : List (Step Command)) → (cue : Cue) → (index : Nat) →
    (enterLanes run l cue index).Obeys B R (L.lanesFact l cue.site index)
  | [], _, _ => L.purePlay ()
  | x :: rest, cue, index => L.bindPlay
      (L.firstLane (L.enterLane (cue.child index) (L.enterStep hrun x (cue.child index))))
      fun _ => L.secondLane (L.enterLanes hrun rest cue (index + 1))

end

variable (dt : Float32)

mutual

theorem tickStep (L : Ledger B R) (hrun : run.Obeys B R) : (x : Step Command) → (cue : Cue) →
    (cue.tick dt (x.tick run dt cue)).Obeys B R (L.stepFact x cue.site)
  | .barrier name expected, cue => L.tickBarrier cue name expected dt
  | .wait _, _ => L.tickCall L.stepFact_at rfl dt (readThen fun _ =>
      L.bindPlay (L.writePlay fun _ _ h => h) fun _ => L.purePlay _)
  | .frames _, _ => L.tickCall L.stepFact_at rfl dt (readThen fun _ =>
      L.bindPlay (L.writePlay fun _ _ h => h) fun _ => L.purePlay _)
  | .publish event, _ => L.tickCall L.stepFact_at rfl dt
      (L.bindPlay (onStage (L.publish event)) fun _ => L.purePlay _)
  | .invoke system command, cue => L.tickCall L.stepFact_at rfl dt
      (onStage (L.invoke cue.owner system command))
  | .component _ name enabled, cue => L.tickCall L.stepFact_at rfl dt
      (readThen fun (id : EntityId) => onStage (L.component cue.owner id name enabled))
  | .call commands, _ => L.tickCall L.stepFact_at rfl dt
      (L.bindPlay (onStage (L.performAll hrun commands)) fun _ => L.purePlay _)
  | .startSequence target, cue => L.tickCall L.stepFact_at rfl dt
      (onStage (L.startAnother hrun cue.owner target))
  | .stopSequence target, _ => L.tickCall L.stepFact_at rfl dt
      (L.bindPlay (onStage (L.stop hrun target)) fun _ => L.purePlay _)
  | .tween t, cue => L.tickCall L.stepFact_at rfl dt (L.tween (fun _ _ _ h => h) t cue.owner dt)
  | .await question limit policy, cue => L.tickCall L.stepFact_at rfl dt
      (L.await hrun (fun _ _ _ h => h) cue question limit policy dt)
  | .probe id script, cue => L.tickCall L.stepFact_at rfl dt
      (L.scriptedTick (fun _ _ _ h => h) (some id) cue.owner script dt)
  | .custom _ onTick _ script, cue => L.tickCall L.stepFact_at rfl dt
      (L.bindPlay (onStage (L.performAll hrun onTick)) fun _ =>
        L.scriptedTick (fun _ _ _ h => h) none cue.owner script dt)
  | .choose question yes no, cue => by
    apply L.tickCall L.stepFact_at rfl
    apply readThen
    intro _
    apply itePlay
    · apply part _ _ (L.tickTrack fun i fresh =>
        L.nth_of_otherwise (x := .choose question yes no) (fun y hy => hy)
          (L.driveNth hrun no (cue.otherwise i) i i fresh))
      · exact fun s a ha => ⟨ha.1, ha.2.2⟩
      · exact fun s a t ha ht => ⟨ha.1, ha.2.1, ht.2⟩
    · apply part _ _ (L.tickTrack fun i fresh =>
        L.nth_of_child (x := .choose question yes no) (fun y hy => hy)
          (L.driveNth hrun yes (cue.child i) i i fresh))
      · exact fun s a ha => ⟨ha.1, ha.2.1⟩
      · exact fun s a t ha ht => ⟨ha.1, ht.2, ha.2.2⟩
  | .bounded seconds policy steps, cue => by
    have hbody : ∀ {α : Type} {play : Play (Track (Children steps)) α},
        play.Obeys B R (L.childrenFact (.bounded seconds policy steps) cue.site steps).track →
        (BoundedProgress.onBody play).Obeys B R
          (L.stepFact (.bounded seconds policy steps) cue.site) := by
      intro α play h
      apply part _ _ h
      · exact fun s a ha => ha
      · exact fun s a t _ ht => ht
    apply L.tickCall L.stepFact_at rfl
    refine L.bindPlay (L.changePlay ?_) fun _ => readThen fun _ => itePlay ?_ ?_
    · exact fun s p hp => hp
    · refine L.bindPlay (L.sayPlay _) fun _ => L.bindPlay (hbody ?_) fun _ => L.purePlay _
      exact L.cancelTrack fun i => L.nth_of_child (x := .bounded seconds policy steps)
        (fun y hy => hy) (L.exitNth hrun steps (cue.child i) i)
    · exact hbody (L.tickTrack fun i fresh => L.nth_of_child
        (x := .bounded seconds policy steps) (fun y hy => hy)
        (L.driveNth hrun steps (cue.child i) i i fresh))
  | .retry attempts steps, cue => by
    apply L.tickCall L.stepFact_at rfl
    have hbody : (RetryProgress.onBody (Track.tick steps.length .propagate fun i fresh =>
        Sequencer.driveNth run dt steps (cue.child i) i i fresh)).Obeys B R
          (L.stepFact (.retry attempts steps) cue.site) := by
      apply part _ _ (L.tickTrack fun i fresh => L.nth_of_child (x := .retry attempts steps)
        (fun y hy => hy) (L.driveNth hrun steps (cue.child i) i i fresh))
      · exact fun s a ha => ha
      · exact fun s a t _ ht => ht
    apply L.bindPlay hbody
    intro status
    cases status with
    | running => exact L.purePlay _
    | succeeded => exact L.purePlay _
    | failed =>
      exact L.bindPlay (L.changePlay fun _ _ h => h) fun _ => readThen fun _ => itePlay
        (L.bindPlay (L.sayPlay _) fun _ => L.purePlay _)
        (L.bindPlay (L.changePlay fun _ _ h => h) fun _ => L.purePlay _)
  | .group steps, cue => by
    rw [Step.tick]
    apply L.tickCall L.stepFact_at rfl
    apply within (L.tickTrack fun i fresh => L.nth_of_child (x := .group steps) (fun y hy => hy)
      (L.driveNth hrun steps (cue.child i) i i fresh))
    · exact fun s a ha => ha
    · exact fun s a t _ ht => ht
  | .parallel mode steps, cue => L.tickCall L.stepFact_at rfl dt
      (L.bindPlay (L.lanes_of_parallel (L.tickLanes hrun steps cue 0)) fun _ =>
        readThen fun _ => L.conclude mode cue.owner _ _)

theorem driveNth (L : Ledger B R) (hrun : run.Obeys B R) :
    (l : List (Step Command)) → (cue : Cue) → (index n : Nat) → (fresh : Bool) →
    (driveNth run dt l cue index n fresh).Obeys B R (L.nthFact l cue.site n)
  | [], _, _, _, _ => L.purePlay _
  | x :: _, cue, _, 0, _ => L.firstNth (L.drive cue (L.enterStep hrun x cue) (L.tickStep hrun x cue)
      (L.exitStep hrun x cue))
  | _ :: rest, cue, index, n + 1, fresh => L.secondNth (L.driveNth hrun rest cue index n fresh)

theorem tickLanes (L : Ledger B R) (hrun : run.Obeys B R) :
    (l : List (Step Command)) → (cue : Cue) → (index : Nat) →
    (tickLanes run dt l cue index).Obeys B R (L.lanesFact l cue.site index)
  | [], _, _ => L.purePlay _
  | x :: rest, cue, index => L.bindPlay
      (L.firstLane (L.tickLane (cue.child index) (L.tickStep hrun x (cue.child index))
        (L.exitStep hrun x (cue.child index))))
      fun _ => L.bindPlay (L.secondLane (L.tickLanes hrun rest cue (index + 1))) fun _ => L.purePlay _

end

end Ledger

end Sequencer
