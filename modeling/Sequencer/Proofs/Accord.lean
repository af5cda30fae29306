import Sequencer.Proofs.Accord.Akin
import Sequencer.Proofs.Course.Acts

/-!
# Stages in accord

Two stages on which the same sequences play the same parts, although they need not bear the same
numbers, nor be the only ones there. What is noted of a sequence is noted of its mate, and notices
count for nothing. An accord says which pairs of stages these are and which sequences may take
part, and what is done to a sequence and to its mate keeps it.

Acts accord if they have the same result on stages in accord and leave them in accord. Plays accord
if they do so with progress that is related, and leave it related. In a calm accord nothing halts.
-/

set_option autoImplicit false

namespace Sequencer

structure Casting where
  named : String → Prop
  step : Step Command → Prop
  condition : Condition → Prop
  code : List Command → Prop

structure Sequence.Fits (k : Casting) (q : Sequence) : Prop where
  named : k.named q.name
  steps : ∀ p ∈ q.parts, k.step p.step
  guard : ∀ c ∈ q.guard, k.condition c
  validators : ∀ v ∈ q.validators, k.condition v.condition
  hooks : ∀ hook, ∀ l ∈ q.hook hook, k.code l

structure Outline.Fits (k : Casting) (o : Outline Command) : Prop where
  named : k.named o.name
  steps : ∀ x ∈ o.steps, k.step x
  guards : ∀ c ∈ o.guards, k.condition c
  validators : ∀ v ∈ o.validators, k.condition v.condition
  started : ∀ l ∈ o.onStarted, k.code l
  completed : ∀ l ∈ o.onCompleted, k.code l
  stopped : ∀ l ∈ o.onStopped, k.code l

theorem Outline.Fits.build {k : Casting} {o : Outline Command} (h : o.Fits k)
    (resolve : String → EntityId) : (Sequence.build resolve o).Fits k where
  named := h.named
  steps p hp := by
    obtain ⟨x, hx, rfl⟩ := List.mem_map.mp hp
    exact h.steps x hx
  guard c hc := h.guards c (List.mem_of_getLast? hc)
  validators := h.validators
  hooks hook l hl := by
    cases hook with
    | started => exact h.started l hl
    | completed => exact h.completed l hl
    | stopped => exact h.stopped l hl

namespace Sequence.Fits

variable {k : Casting} {q : Sequence}

/-- A sequence takes part by what does not change, so it does as long as that stays. -/
theorem same (h : q.Fits k) {r : Sequence} (hn : r.name = q.name) (hp : r.parts = q.parts)
    (hg : r.guard = q.guard) (hv : ∀ v ∈ r.validators, v ∈ q.validators)
    (hh : ∀ hook, r.hook hook = q.hook hook) : r.Fits k where
  named := by rw [hn]; exact h.named
  steps := by rw [hp]; exact h.steps
  guard := by rw [hg]; exact h.guard
  validators v hm := h.validators v (hv v hm)
  hooks hook := by rw [hh]; exact h.hooks hook

theorem state (h : q.Fits k) (current : Nat) (entered running paused ticking : Bool)
    (generation : Nat) : Sequence.Fits k
      { q with current, entered, running, paused, ticking, generation } :=
  h.same rfl rfl rfl (fun _ hv => hv) fun hook => by cases hook <;> rfl

theorem withPart (h : q.Fits k) {part : Part} (hp : k.step part.step) (index : Nat) :
    (q.withPart index part).Fits k where
  named := h.named
  steps p hm := (List.mem_or_eq_of_mem_set hm).elim (h.steps p) fun he => he ▸ hp
  guard := h.guard
  validators := h.validators
  hooks hook := by
    have hh := h.hooks hook
    cases hook <;> exact hh

end Sequence.Fits

/-- Sequences that are akin take part alike. -/
theorem Sequence.Akin.fits {k : Casting} {p q : Sequence} (h : p.Akin q) (hp : p.Fits k) :
    q.Fits k where
  named := by rw [h.name]; exact hp.named
  steps part hpart := by
    obtain ⟨i, hi⟩ := List.mem_iff_getElem?.mp hpart
    have hn := h.parts i
    rw [hi] at hn
    generalize hl : p.parts[i]? = a at hn
    cases hn with
    | some hpq =>
      rw [hpq.step_eq]
      exact hp.steps _ (List.mem_of_getElem? hl)
  guard := by rw [h.guard]; exact hp.guard
  validators := by rw [h.validators]; exact hp.validators
  hooks hook := by rw [h.hook]; exact hp.hooks hook

inductive Site.Mates (mate : Nat → Nat → Prop) : Site → Site → Prop
  | top {i j : Nat} (n : Nat) : mate i j → Site.Mates mate (.top i n) (.top j n)
  | held (slot : String) : Site.Mates mate (.held slot) (.held slot)
  | child {σ τ : Site} (n : Nat) : Site.Mates mate σ τ → Site.Mates mate (.child σ n) (.child τ n)
  | otherwise {σ τ : Site} (n : Nat) :
      Site.Mates mate σ τ → Site.Mates mate (.otherwise σ n) (.otherwise τ n)

inductive Asker.Mates (mate : Nat → Nat → Prop) : Asker → Asker → Prop
  | step {σ τ : Site} : Site.Mates mate σ τ → Asker.Mates mate (.step σ) (.step τ)
  | guard {i j : Nat} : mate i j → Asker.Mates mate (.guard i) (.guard j)
  | validator {i j : Nat} (n : Nat) :
      mate i j → Asker.Mates mate (.validator i n) (.validator j n)

def Entry.isBare : Entry → Bool
  | .frame _ => true
  | .invoked .. => true
  | .componentSet .. => true
  | .poseSet .. => true
  | .did .. => true
  | .arrived _ => true
  | _ => false

inductive Entry.Mates (named : String → Prop) (mate : Nat → Nat → Prop) : Entry → Entry → Prop
  | bare {e : Entry} : e.isBare = true → Entry.Mates named mate e e
  | probeEntered (id : String) {owner : String} : named owner →
      Entry.Mates named mate (.probeEntered id owner) (.probeEntered id owner)
  | probeTicked (id : String) {owner : String} (dt : Float32) (status : Status) : named owner →
      Entry.Mates named mate (.probeTicked id owner dt status) (.probeTicked id owner dt status)
  | probeExited (id : String) {owner : String} : named owner →
      Entry.Mates named mate (.probeExited id owner) (.probeExited id owner)
  | polled {a b : Asker} (id : Option String) (answer : Bool) : Asker.Mates mate a b →
      Entry.Mates named mate (.polled a id answer) (.polled b id answer)
  | called {σ τ : Site} (call : Call) : Site.Mates mate σ τ →
      Entry.Mates named mate (.called σ call) (.called τ call)
  | returned {σ τ : Site} (status : Option Status) : Site.Mates mate σ τ →
      Entry.Mates named mate (.returned σ status) (.returned τ status)
  | notified {i j : Nat} (name : String) (hook : Hook) (isSet : Bool) : mate i j →
      Entry.Mates named mate (.notified i name hook isSet) (.notified j name hook isSet)
  | turn {i j : Nat} (turn : Turn) : mate i j →
      Entry.Mates named mate (.turn i turn) (.turn j turn)
  | drove {i j : Nat} (status : Status) : mate i j →
      Entry.Mates named mate (.drove i status) (.drove j status)
  | began {i j : Nat} : mate i j → Entry.Mates named mate (.began i) (.began j)
  | restored {i j : Nat} (wasRunning : Bool) : mate i j →
      Entry.Mates named mate (.restored i wasRunning) (.restored j wasRunning)
  | moved {i j : Nat} (move : Move) (cursor : Nat) : mate i j →
      Entry.Mates named mate (.moved i move cursor) (.moved j move cursor)
  | dropped {i j : Nat} (running : Bool) : mate i j →
      Entry.Mates named mate (.dropped i running) (.dropped j running)

structure Accord where
  rel : Stage → Stage → Prop
  mate : Nat → Nat → Prop
  cast : Casting
  /-- Whether nothing may halt. -/
  calm : Prop
  akin : ∀ {s t i j}, rel s t → mate i j → (s.sequence i).Akin (t.sequence j)
  fits : ∀ {s t i j}, rel s t → mate i j → (s.sequence i).Fits cast
  find : ∀ {s t name}, rel s t → cast.named name →
    Option.Rel mate (s.find? name) (t.find? name)
  modify : ∀ {s t i j} {f g : Sequence → Sequence}, rel s t → mate i j →
    (f (s.sequence i)).Akin (g (t.sequence j)) → (f (s.sequence i)).Fits cast →
    rel (s.modify i f) (t.modify j g)
  enlist : ∀ {s t i j}, rel s t → mate i j → rel (s.enlist i) (t.enlist j)
  delist : ∀ {s t i j}, rel s t → mate i j → rel (s.delist i) (t.delist j)
  unregister : ∀ {s t name}, rel s t → cast.named name →
    rel (s.unregister name) (t.unregister name)
  note : ∀ {s t e e'}, rel s t → Entry.Mates cast.named mate e e' → rel (s.note e) (t.note e')
  noticeLeft : ∀ {s t} (n : Notice), rel s t → rel (s.note (.notice n)) t
  noticeRight : ∀ {s t} (n : Notice), rel s t → rel s (t.note (.notice n))
  publish : ∀ {s t} (e : Event), rel s t → rel (Simple.publish e s).2 (Simple.publish e t).2

structure Accord.Same (A : Accord) {α : Type} (r r' : Except Halt α) : Prop where
  eq : r' = r
  isOk : A.calm → r.isOk = true

theorem Accord.Same.ok {A : Accord} {α : Type} {a b : α} (h : b = a) :
    A.Same (.ok a) (.ok b) := ⟨congrArg Except.ok h, fun _ => rfl⟩

theorem Accord.Same.map {A : Accord} {α β : Type} {r r' : Except Halt α} (h : A.Same r r')
    {f g : α → β} (hf : ∀ a, g a = f a) : A.Same (r.map f) (r'.map g) := by
  obtain ⟨rfl, hok⟩ := h
  cases r' with
  | error e => exact ⟨rfl, hok⟩
  | ok a => exact .ok (hf a)

/-- On stages in accord the acts have the same result, and leave stages in accord. -/
def Act.Accords {α : Type} (A : Accord) (x y : Act α) : Prop :=
  ∀ s t, A.rel s t → A.Same (x s).1 (y t).1 ∧ A.rel (x s).2 (y t).2

def Play.Accords {π α : Type} (A : Accord) (R : π → π → Prop) (x y : Play π α) : Prop :=
  ∀ p q s t, R p q → A.rel s t → A.Same (x (p, s)).1 (y (q, t)).1 ∧
    R (x (p, s)).2.1 (y (q, t)).2.1 ∧ A.rel (x (p, s)).2.2 (y (q, t)).2.2

def Accord.Answers (A : Accord) (c : Condition) : Prop :=
  ∀ s t, A.rel s t → ∀ owner polls,
    A.Same (c.test.eval s owner polls) (c.test.eval t owner polls)

structure Cue.Mates (A : Accord) (c d : Cue) : Prop where
  owner : d.owner = c.owner
  named : A.cast.named c.owner
  site : Site.Mates A.mate c.site d.site

theorem Cue.Mates.child {A : Accord} {c d : Cue} (h : c.Mates A d) (i : Nat) :
    (c.child i).Mates A (d.child i) := ⟨h.owner, h.named, .child i h.site⟩

theorem Cue.Mates.otherwise {A : Accord} {c d : Cue} (h : c.Mates A d) (i : Nat) :
    (c.otherwise i).Mates A (d.otherwise i) := ⟨h.owner, h.named, .otherwise i h.site⟩

namespace Act.Accords

variable {A : Accord} {α β : Type}

theorem pure (a : α) : Act.Accords A (pure a) (pure a) := fun _ _ h => ⟨.ok rfl, h⟩

theorem halt (hA : ¬ A.calm) (e : Halt) : Act.Accords A (.halt e : Act α) (.halt e) :=
  fun _ _ h => ⟨⟨rfl, fun hc => absurd hc hA⟩, h⟩

theorem read {f g : Stage → α} (hf : ∀ s t, A.rel s t → g t = f s) :
    Act.Accords A (.read f) (.read g) := fun s t h => ⟨.ok (hf s t h), h⟩

theorem change {f g : Stage → Stage} (hf : ∀ s t, A.rel s t → A.rel (f s) (g t)) :
    Act.Accords A (.change f) (.change g) := fun s t h => ⟨.ok rfl, hf s t h⟩

theorem note {e e' : Entry} (he : Entry.Mates A.cast.named A.mate e e') :
    Act.Accords A (.note e) (.note e') := change fun _ _ h => A.note h he

theorem say (n m : Notice) : Act.Accords A (.say n) (.say m) :=
  change fun _ _ h => A.noticeRight m (A.noticeLeft n h)

theorem bind {x y : Act α} {f g : α → Act β} (h : Act.Accords A x y)
    (hf : ∀ a, Act.Accords A (f a) (g a)) : Act.Accords A (x >>= f) (y >>= g) := by
  intro s t hst
  obtain ⟨⟨hr, hok⟩, hrel⟩ := h s t hst
  rw [Act.bind_apply, Act.bind_apply]
  rcases hx : x s with ⟨e | a, s'⟩ <;> rcases hy : y t with ⟨e' | b, t'⟩ <;>
    rw [hx, hy] at hr hrel <;> rw [hx] at hok
  · exact ⟨⟨congrArg Except.error (Except.error.inj hr), hok⟩, hrel⟩
  · exact absurd hr (by simp)
  · exact absurd hr (by simp)
  · obtain rfl := Except.ok.inj hr
    exact hf _ s' t' hrel

/-- What is read need not be the same, as long as what is made of it accords. -/
theorem read_bind {f g : Stage → β} {k l : β → Act α}
    (h : ∀ s t, A.rel s t →
      A.Same (k (f s) s).1 (l (g t) t).1 ∧ A.rel (k (f s) s).2 (l (g t) t).2) :
    Act.Accords A (.read f >>= k) (.read g >>= l) := by
  intro s t hst
  rw [Act.bind_apply, Act.bind_apply]
  exact h s t hst

theorem ite {c : Prop} [Decidable c] {x y x' y' : Act α} (hx : Act.Accords A x x')
    (hy : Act.Accords A y y') : Act.Accords A (if c then x else y) (if c then x' else y') := by
  split
  · exact hx
  · exact hy

theorem publish (e : Event) : Act.Accords A (Simple.publish e) (Simple.publish e) := by
  have hok : ∀ s, (Simple.publish e s).1 = .ok () := by
    intro s
    simp only [Simple.publish, Act.bind_apply, Act.read]
    cases s.host.muted <;> rfl
  intro s t hst
  rw [hok, hok]
  exact ⟨.ok rfl, A.publish e hst⟩

theorem ask {c : Condition} (h : A.Answers c) {a b : Asker} (hab : Asker.Mates A.mate a b)
    (owner : String) (polls : Nat) :
    Act.Accords A (ask a owner polls c) (ask b owner polls c) := by
  refine .read_bind fun s t hst => ?_
  obtain ⟨hr, hok⟩ := h s t hst owner polls
  rw [hr]
  generalize c.test.eval s owner polls = r at hok
  cases r with
  | ok answer => exact ⟨.ok rfl, A.note hst (.polled c.id answer hab)⟩
  | error e => exact ⟨⟨rfl, hok⟩, hst⟩

end Act.Accords

namespace Play.Accords

variable {A : Accord} {π σ α β : Type} {R : π → π → Prop} {Q : σ → σ → Prop}

theorem pure (a : α) : Play.Accords A R (pure a) (pure a) :=
  fun _ _ _ _ hp h => ⟨.ok rfl, hp, h⟩

theorem change {f g : π → π} (hf : ∀ p q, R p q → R (f p) (g q)) :
    Play.Accords A R (Play.change f) (Play.change g) :=
  fun p q _ _ hp h => ⟨.ok rfl, hf p q hp, h⟩

theorem write {p q : π} (hpq : R p q) : Play.Accords A R (Play.write p) (Play.write q) :=
  fun _ _ _ _ _ h => ⟨.ok rfl, hpq, h⟩

theorem onStage {x y : Act α} (h : Act.Accords A x y) :
    Play.Accords A R (Play.onStage x) (Play.onStage y) := by
  intro p q s t hp hst
  obtain ⟨hr, hrel⟩ := h s t hst
  exact ⟨hr, hp, hrel⟩

theorem note {e e' : Entry} (he : Entry.Mates A.cast.named A.mate e e') :
    Play.Accords A R (Play.note e) (Play.note e') := onStage (.note he)

theorem say (n m : Notice) : Play.Accords A R (Play.say n) (Play.say m) := onStage (.say n m)

theorem bind {x y : Play π α} {f g : α → Play π β} (h : Play.Accords A R x y)
    (hf : ∀ a, Play.Accords A R (f a) (g a)) : Play.Accords A R (x >>= f) (y >>= g) := by
  intro p q s t hp hst
  obtain ⟨⟨hr, hok⟩, hp', hrel⟩ := h p q s t hp hst
  rw [Play.bind_apply, Play.bind_apply]
  rcases hx : x (p, s) with ⟨e | a, p₁, s'⟩ <;> rcases hy : y (q, t) with ⟨e' | b, q₁, t'⟩ <;>
    rw [hx, hy] at hr hp' hrel <;> rw [hx] at hok
  · exact ⟨⟨congrArg Except.error (Except.error.inj hr), hok⟩, hp', hrel⟩
  · exact absurd hr (by simp)
  · exact absurd hr (by simp)
  · obtain rfl := Except.ok.inj hr
    exact hf _ p₁ q₁ s' t' hp' hrel

/-- Related progress is read on the two sides. -/
theorem read_bind {k l : π → Play π α} (h : ∀ p q, R p q → Play.Accords A R (k p) (l q)) :
    Play.Accords A R (Play.read >>= k) (Play.read >>= l) := by
  intro p q s t hp hst
  rw [Play.bind_apply, Play.bind_apply]
  exact h p q hp p q s t hp hst

/-- Whatever the two sides are set to. -/
theorem settings_bind {k l : Settings → Play π α}
    (h : ∀ a b, Play.Accords A R (k a) (l b)) :
    Play.Accords A R (Play.settings >>= k) (Play.settings >>= l) := by
  intro p q s t hp hst
  rw [Play.bind_apply, Play.bind_apply]
  exact h s.settings t.settings p q s t hp hst

theorem ite {c : Prop} [Decidable c] {x y x' y' : Play π α} (hx : Play.Accords A R x x')
    (hy : Play.Accords A R y y') :
    Play.Accords A R (if c then x else y) (if c then x' else y') := by
  split
  · exact hx
  · exact hy

/-- Whether a notice is given first makes no difference. -/
theorem remarking {x y : Play π α} (h : Play.Accords A R x y) (n m : Notice) (b c : Bool) :
    Play.Accords A R (if b then Play.say n >>= fun _ => x else x)
      (if c then Play.say m >>= fun _ => y else y) := by
  intro p q s t hp hst
  have hleft := A.noticeLeft n hst
  cases b <;> cases c
  · exact h p q s t hp hst
  · exact h p q s _ hp (A.noticeRight m hst)
  · exact h p q _ t hp hleft
  · exact h p q _ _ hp (A.noticeRight m hleft)

theorem traced {x y : Play π α} (h : Play.Accords A R x y) (n m : Notice) :
    Play.Accords A R
      (Play.settings >>= fun c => if c.traceSteps then Play.say n >>= fun _ => x else x)
      (Play.settings >>= fun c => if c.traceSteps then Play.say m >>= fun _ => y else y) :=
  settings_bind fun _ _ => h.remarking n m _ _

theorem part {get : σ → π} {put : π → σ → σ} {x y : Play π α} (h : Play.Accords A R x y)
    (hget : ∀ a b, Q a b → R (get a) (get b))
    (hput : ∀ a b p q, Q a b → R p q → Q (put p a) (put q b)) :
    Play.Accords A Q (Play.part get put x) (Play.part get put y) := by
  intro a b s t hab hst
  obtain ⟨hr, hp, hrel⟩ := h (get a) (get b) s t (hget a b hab) hst
  exact ⟨hr, hput _ _ _ _ hab hp, hrel⟩

theorem first {x y : Play π α} (h : Play.Accords A R x y) :
    Play.Accords A (fun a b : π × σ => R a.1 b.1 ∧ Q a.2 b.2) (Play.first x) (Play.first y) :=
  h.part (fun _ _ hab => hab.1) fun _ _ _ _ hab hp => ⟨hp, hab.2⟩

theorem second {x y : Play σ α} (h : Play.Accords A Q x y) :
    Play.Accords A (fun a b : π × σ => R a.1 b.1 ∧ Q a.2 b.2) (Play.second x) (Play.second y) :=
  h.part (fun _ _ hab => hab.2) fun _ _ _ _ hab hq => ⟨hab.1, hq⟩

end Play.Accords

end Sequencer
