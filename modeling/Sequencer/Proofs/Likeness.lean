import Sequencer.Proofs.Course.Acts

/-!
# Stages that are alike

A step looks at the host, the barriers, the settings and at who runs and who is paused, and it
tells of itself by its site. Two stages that agree in that much are alike to it: called on either
of them, at the site where it stands there, a step answers the same, is left with the same
progress, and leaves stages that are alike again. The user code in it is taken to do so as well;
on the two sides it may be carried out by different runners.
-/

set_option autoImplicit false

namespace Sequencer

def Notice.isCommon : Notice → Bool
  | .entered .sequence .. => false
  | .exited .sequence .. => false
  | _ => true

def Entry.isCommon : Entry → Bool
  | .notice n => n.isCommon
  | .probeEntered .. => true
  | .probeTicked .. => true
  | .probeExited .. => true
  | .published _ => true
  | .invoked .. => true
  | .componentSet .. => true
  | .poseSet .. => true
  | .did .. => true
  | .arrived _ => true
  | _ => false

/-- A relation between stages that no step can tell apart. The steps that are called stand at
`own` sites on the one side, and at the sites `site` says on the other. -/
structure Likeness where
  related : Stage → Stage → Prop
  own : Site → Prop
  site : Site → Site
  child : ∀ σ i, own σ → own (.child σ i) ∧ site (.child σ i) = .child (site σ) i
  otherwise : ∀ σ i, own σ → own (.otherwise σ i) ∧ site (.otherwise σ i) = .otherwise (site σ) i
  settings : ∀ {s t}, related s t → t.settings = s.settings
  barriers : ∀ {s t}, related s t → t.barriers = s.barriers
  host : ∀ {s t}, related s t → t.host = s.host
  running : ∀ {s t}, related s t → ∀ name, t.isRunning name = s.isRunning name
  paused : ∀ {s t}, related s t → ∀ name, t.isPaused name = s.isPaused name
  note : ∀ {s t} {e : Entry}, related s t → e.isCommon = true → related (s.note e) (t.note e)
  polled : ∀ {s t} {σ : Site} (c : Option String) (answer : Bool), related s t → own σ →
    related (s.note (.polled (.step σ) c answer)) (t.note (.polled (.step (site σ)) c answer))
  called : ∀ {s t} {σ : Site} (c : Call), related s t → own σ →
    related (s.note (.called σ c)) (t.note (.called (site σ) c))
  returned : ∀ {s t} {σ : Site} (r : Option Status), related s t → own σ →
    related (s.note (.returned σ r)) (t.note (.returned (site σ) r))
  hosting : ∀ {s t} (h : Host), related s t → related { s with host := h } { t with host := h }
  arrive : ∀ {s t} (barrier : String), related s t → related (s.arrive barrier) (t.arrive barrier)

def Likeness.plain (related : Stage → Stage → Prop)
    (same : ∀ {s t}, related s t →
      t.settings = s.settings ∧ t.barriers = s.barriers ∧ t.host = s.host)
    (running : ∀ {s t}, related s t → ∀ name, t.isRunning name = s.isRunning name)
    (paused : ∀ {s t}, related s t → ∀ name, t.isPaused name = s.isPaused name)
    (note : ∀ {s t} (e : Entry), related s t → related (s.note e) (t.note e))
    (hosting : ∀ {s t} (h : Host), related s t →
      related { s with host := h } { t with host := h })
    (arrive : ∀ {s t} (barrier : String), related s t →
      related (s.arrive barrier) (t.arrive barrier)) : Likeness where
  related := related
  own _ := True
  site σ := σ
  child _ _ _ := ⟨trivial, rfl⟩
  otherwise _ _ _ := ⟨trivial, rfl⟩
  settings h := (same h).1
  barriers h := (same h).2.1
  host h := (same h).2.2
  running := running
  paused := paused
  note h _ := note _ h
  polled _ _ h _ := note _ h
  called _ h _ := note _ h
  returned _ h _ := note _ h
  hosting := hosting
  arrive := arrive

mutual

/-- A test gets the same answer on stages that are alike. -/
theorem Test.eval_alike (L : Likeness) {s t : Stage} (h : L.related s t) (owner : String)
    (polls : Nat) : (test : Test) → test.eval t owner polls = test.eval s owner polls
  | .const _ => rfl
  | .flag _ => by rw [Test.eval, Test.eval, L.host h]
  | .counterAtLeast _ _ => by rw [Test.eval, Test.eval, L.host h]
  | .pollsAtLeast _ => rfl
  | .script _ => rfl
  | .hasSystem _ => by rw [Test.eval, Test.eval, L.host h]
  | .hasEntity _ => by rw [Test.eval, Test.eval, L.host h]
  | .running _ => by rw [Test.eval, Test.eval, L.running h]
  | .paused _ => by rw [Test.eval, Test.eval, L.paused h]
  | .barrierAtLeast _ _ => by rw [Test.eval, Test.eval, L.barriers h]
  | .owner _ => rfl
  | .frameAtLeast _ => by rw [Test.eval, Test.eval, L.host h]
  | .elapsedAtLeast _ => by rw [Test.eval, Test.eval, L.host h]
  | .timeScaleAbove _ => by rw [Test.eval, Test.eval, L.host h]
  | .panic _ => rfl
  | .not test => by rw [Test.eval, Test.eval, Test.eval_alike L h owner polls test]
  | .all tests => by rw [Test.eval, Test.eval, evalAll_alike L h owner polls tests]
  | .any tests => by rw [Test.eval, Test.eval, evalAny_alike L h owner polls tests]

theorem evalAll_alike (L : Likeness) {s t : Stage} (h : L.related s t) (owner : String)
    (polls : Nat) : (l : List Test) → evalAll t owner polls l = evalAll s owner polls l
  | [] => rfl
  | test :: rest => by
    rw [evalAll, evalAll, Test.eval_alike L h owner polls test,
      evalAll_alike L h owner polls rest]

theorem evalAny_alike (L : Likeness) {s t : Stage} (h : L.related s t) (owner : String)
    (polls : Nat) : (l : List Test) → evalAny t owner polls l = evalAny s owner polls l
  | [] => rfl
  | test :: rest => by
    rw [evalAny, evalAny, Test.eval_alike L h owner polls test,
      evalAny_alike L h owner polls rest]

end

def Act.Alike {α : Type} (L : Likeness) (x y : Act α) : Prop :=
  ∀ s t, L.related s t → (y t).1 = (x s).1 ∧ L.related (x s).2 (y t).2

def Play.Alike {π α : Type} (L : Likeness) (x y : Play π α) : Prop :=
  ∀ p s t, L.related s t → (y (p, t)).1 = (x (p, s)).1 ∧ (y (p, t)).2.1 = (x (p, s)).2.1 ∧
    L.related (x (p, s)).2.2 (y (p, t)).2.2

namespace Act.Alike

variable {L : Likeness} {α β : Type}

theorem pure (a : α) : Act.Alike L (pure a) (pure a) := fun _ _ h => ⟨rfl, h⟩

theorem halt (e : Halt) : Act.Alike L (.halt e : Act α) (.halt e) := fun _ _ h => ⟨rfl, h⟩

theorem read {f g : Stage → α} (hf : ∀ s t, L.related s t → g t = f s) :
    Act.Alike L (.read f) (.read g) := fun s t h => ⟨congrArg Except.ok (hf s t h), h⟩

theorem note {e e' : Entry} (he : ∀ s t, L.related s t → L.related (s.note e) (t.note e')) :
    Act.Alike L (.note e) (.note e') := fun s t h => ⟨rfl, he s t h⟩

theorem common {e : Entry} (he : e.isCommon = true) : Act.Alike L (.note e) (.note e) :=
  note fun _ _ h => L.note h he

theorem say {n : Notice} (hn : n.isCommon = true) : Act.Alike L (.say n) (.say n) := common hn

/-- A change of the host alone, made of what the two stages have in common. -/
theorem host {f g : Stage → Host} (hf : ∀ s t, L.related s t → g t = f s) :
    Act.Alike L (.change fun s => { s with host := f s })
      (.change fun s => { s with host := g s }) := by
  intro s t h
  refine ⟨rfl, ?_⟩
  show L.related { s with host := f s } { t with host := g t }
  rw [hf s t h]
  exact L.hosting _ h

theorem inScene (f : Scene → α × Scene) : Act.Alike L (.inScene f) (.inScene f) := by
  intro s t h
  show Except.ok (f t.host.scene).1 = Except.ok (f s.host.scene).1 ∧
    L.related { s with host := { s.host with scene := (f s.host.scene).2 } }
      { t with host := { t.host with scene := (f t.host.scene).2 } }
  rw [L.host h]
  exact ⟨rfl, L.hosting _ h⟩

theorem bind {x y : Act α} {f g : α → Act β} (h : Act.Alike L x y)
    (hf : ∀ a, Act.Alike L (f a) (g a)) : Act.Alike L (x >>= f) (y >>= g) := by
  intro s t hst
  obtain ⟨hr, hrel⟩ := h s t hst
  rw [Act.bind_apply, Act.bind_apply]
  rcases hx : x s with ⟨e | a, s'⟩ <;> rcases hy : y t with ⟨e' | b, t'⟩ <;>
    rw [hx, hy] at hr hrel
  · exact ⟨congrArg Except.error (Except.error.inj hr), hrel⟩
  · exact absurd hr (by simp)
  · exact absurd hr (by simp)
  · obtain rfl := Except.ok.inj hr
    exact hf _ s' t' hrel

theorem ite {c : Prop} [Decidable c] {x y x' y' : Act α} (hx : Act.Alike L x x')
    (hy : Act.Alike L y y') : Act.Alike L (if c then x else y) (if c then x' else y') := by
  split
  · exact hx
  · exact hy

end Act.Alike

namespace Play.Alike

variable {L : Likeness} {π σ α β : Type}

theorem pure (a : α) : Play.Alike L (pure a : Play π α) (pure a) := fun _ _ _ h => ⟨rfl, rfl, h⟩

theorem read : Play.Alike L (Play.read (π := π)) Play.read := fun _ _ _ h => ⟨rfl, rfl, h⟩

theorem write (p : π) : Play.Alike L (Play.write p) (Play.write p) := fun _ _ _ h => ⟨rfl, rfl, h⟩

theorem change (f : π → π) : Play.Alike L (Play.change f) (Play.change f) :=
  fun _ _ _ h => ⟨rfl, rfl, h⟩

theorem onStage {x y : Act α} (h : Act.Alike L x y) :
    Play.Alike L (Play.onStage x : Play π α) (Play.onStage y) := by
  intro p s t hst
  obtain ⟨hr, hrel⟩ := h s t hst
  exact ⟨hr, rfl, hrel⟩

theorem common {e : Entry} (he : e.isCommon = true) :
    Play.Alike L (Play.note e : Play π Unit) (Play.note e) := onStage (.common he)

theorem say {n : Notice} (hn : n.isCommon = true) :
    Play.Alike L (Play.say n : Play π Unit) (Play.say n) := onStage (.say hn)

theorem settings : Play.Alike L (Play.settings : Play π Settings) Play.settings :=
  onStage (.read fun _ _ h => L.settings h)

theorem bind {x y : Play π α} {f g : α → Play π β} (h : Play.Alike L x y)
    (hf : ∀ a, Play.Alike L (f a) (g a)) : Play.Alike L (x >>= f) (y >>= g) := by
  intro p s t hst
  obtain ⟨hr, hp, hrel⟩ := h p s t hst
  rw [Play.bind_apply, Play.bind_apply]
  rcases hx : x (p, s) with ⟨e | a, p₁, s'⟩ <;> rcases hy : y (p, t) with ⟨e' | b, p₂, t'⟩ <;>
    rw [hx, hy] at hr hp hrel
  · exact ⟨congrArg Except.error (Except.error.inj hr), hp, hrel⟩
  · exact absurd hr (by simp)
  · exact absurd hr (by simp)
  · obtain rfl := Except.ok.inj hr
    obtain rfl : p₂ = p₁ := hp
    exact hf _ p₂ s' t' hrel

theorem ite {c : Prop} [Decidable c] {x y x' y' : Play π α} (hx : Play.Alike L x x')
    (hy : Play.Alike L y y') : Play.Alike L (if c then x else y) (if c then x' else y') := by
  split
  · exact hx
  · exact hy

theorem part {get : σ → π} {put : π → σ → σ} {x y : Play π α} (h : Play.Alike L x y) :
    Play.Alike L (Play.part get put x) (Play.part get put y) := by
  intro a s t hst
  obtain ⟨hr, hp, hrel⟩ := h (get a) s t hst
  exact ⟨hr, congrArg (put · a) hp, hrel⟩

theorem first {x y : Play π α} (h : Play.Alike L x y) :
    Play.Alike L (Play.first x : Play (π × σ) α) (Play.first y) := part h

theorem second {x y : Play σ α} (h : Play.Alike L x y) :
    Play.Alike L (Play.second x : Play (π × σ) α) (Play.second y) := part h

end Play.Alike

end Sequencer
