import Sequencer.Session
import Sequencer.Proofs.Accord.Conductor
import Sequencer.Proofs.LeftAlone

/-!
# Sequences that keep to themselves

A sequence keeps to itself if its steps are waits, published events, probes, barriers of its own, code
that does not operate on sequences, and composites of these, and if what it asks depends on nothing
but how often it was asked. Such code changes nothing but the host's own state, and it always comes to
its end.
-/

set_option autoImplicit false

namespace Sequencer

/-- Its answer depends on nothing but who asks and how often it was asked. -/
def Condition.IsOwn (c : Condition) : Prop :=
  ∃ f : String → Nat → Bool, ∀ s owner polls, c.test.eval s owner polls = .ok (f owner polls)

def Command.isHarmless : Command → Bool
  | .edit (.arrive _) => false
  | .edit _ => true
  | .ask _ => true
  | _ => false

structure Question.IsOwn (q : Question Command) : Prop where
  code : ∀ c ∈ q.code, c.isHarmless = true
  answers : q.toCondition.IsOwn

/-- A step without children that concerns nobody else: its barrier is as `own` has it, and its code is
harmless. -/
def Step.KeepsTo (own : String → Prop) : Step Command → Prop
  | .wait _ => True
  | .frames _ => True
  | .publish _ => True
  | .probe _ _ => True
  | .barrier name _ => own name
  | .call commands => ∀ c ∈ commands, c.isHarmless = true
  | .custom onEnter onTick onExit _ => ∀ c ∈ onEnter ++ onTick ++ onExit, c.isHarmless = true
  | _ => False

def Casting.apart (named own : String → Prop) : Casting where
  named := named
  step x := x.Each (Step.KeepsTo own) Question.IsOwn
  condition := Condition.IsOwn
  code l := ∀ c ∈ l, c.isHarmless = true

def Entry.isIdle : Entry → Bool
  | .notice _ => true
  | .published _ => true
  | .arrived _ => false
  | e => e.isBare

structure Stage.Backdrop (s u : Stage) : Prop where
  same : u = { s with host := u.host, journal := u.journal }
  bookmarks : u.host.bookmarks = s.host.bookmarks
  idle : OnlyAdds (fun e => e.isIdle = true) s u

namespace Stage.Backdrop

variable {s t u : Stage}

theorem refl (s : Stage) : Stage.Backdrop s s := ⟨rfl, rfl, .refl _ s⟩

theorem trans (h : Stage.Backdrop s t) (h' : Stage.Backdrop t u) : Stage.Backdrop s u := by
  refine ⟨?_, h'.bookmarks.trans h.bookmarks, h.idle.trans h'.idle⟩
  rw [h'.same, h.same]

theorem note (s : Stage) {e : Entry} (he : e.isIdle = true) : Stage.Backdrop s (s.note e) :=
  ⟨rfl, rfl, [e], rfl, by simpa using he⟩

theorem host (s : Stage) {h : Host} (hb : h.bookmarks = s.host.bookmarks) :
    Stage.Backdrop s { s with host := h } := ⟨rfl, hb, .refl _ s⟩

end Stage.Backdrop

def Act.IsHarmless {α : Type} (x : Act α) : Prop :=
  ∀ s, (x s).1.isOk = true ∧ Stage.Backdrop s (x s).2

namespace Act.IsHarmless

variable {α β : Type}

theorem pure (a : α) : (pure a : Act α).IsHarmless := fun s => ⟨rfl, .refl s⟩

theorem read (f : Stage → α) : (Act.read f).IsHarmless := fun s => ⟨rfl, .refl s⟩

theorem note {e : Entry} (he : e.isIdle = true) : (Act.note e).IsHarmless :=
  fun s => ⟨rfl, .note s he⟩

theorem onHost {f : Host → Host} (hf : ∀ h, (f h).bookmarks = h.bookmarks) :
    (onHost f).IsHarmless := fun s => ⟨rfl, .host s (hf s.host)⟩

theorem inScene (f : Scene → α × Scene) : (Act.inScene f).IsHarmless :=
  fun s => ⟨rfl, .host s rfl⟩

theorem bind {x : Act α} {f : α → Act β} (hx : x.IsHarmless) (hf : ∀ a, (f a).IsHarmless) :
    (x >>= f).IsHarmless := by
  intro s
  have h := hx s
  rw [Act.bind_apply]
  rcases hxs : x s with ⟨e | a, t⟩ <;> rw [hxs] at h
  · exact absurd h.1 Bool.false_ne_true
  · have ht := hf a t
    exact ⟨ht.1, h.2.trans ht.2⟩

theorem ite {c : Prop} [Decidable c] {x y : Act α} (hx : x.IsHarmless) (hy : y.IsHarmless) :
    (if c then x else y).IsHarmless := by
  split
  · exact hx
  · exact hy

theorem publish (e : Event) : (Simple.publish e).IsHarmless :=
  .bind (.read _) fun _ => .ite (.pure ()) (.bind (.note rfl) fun _ => fun s => ⟨rfl, .host s rfl⟩)

theorem invokeSystem (system : String) (command : Instruction) :
    (Simple.invokeSystem system command).IsHarmless :=
  .bind (.inScene _) fun _ => .bind (.note rfl) fun _ => .pure _

theorem setComponent (entity : EntityId) (component : String) (enabled : Bool) :
    (Simple.setComponent entity component enabled).IsHarmless :=
  .bind (.inScene _) fun _ => .bind (.note rfl) fun _ => .pure _

theorem setPose (entity : EntityId) (pose : Pose) : (Simple.setPose entity pose).IsHarmless := by
  have hnoted : ∀ ok : Bool, Act.IsHarmless (do
      .note (.poseSet entity pose ok)
      return ok : Act Bool) := fun ok => .bind (.note rfl) fun _ => .pure ok
  exact .bind (.read _) fun _ => .ite (.bind (.pure false) hnoted) (.bind (.inScene _) hnoted)

theorem resolved (label : String) : (resolved label).IsHarmless := .bind (.read _) fun _ => .pure _

end Act.IsHarmless

/-- An edit that is no arrival at a barrier. -/
theorem Change.apply_isHarmless (c : Change) (hc : (Command.edit c).isHarmless = true) :
    c.apply.IsHarmless := by
  cases c with
  | arrive barrier => cases hc
  | engine frame elapsed timeScale => exact .bind (.onHost fun _ => rfl) fun _ => .pure _
  | flag name value => exact .bind (.onHost fun _ => rfl) fun _ => .pure _
  | count name amount => exact .bind (.read _) fun _ => .bind (.onHost fun _ => rfl) fun _ => .pure _
  | publish event => exact .bind (.publish event) fun _ => .pure _
  | takeEvents => exact .bind (.read _) fun _ => .bind (.onHost fun _ => rfl) fun _ => .pure _
  | addSystem name => exact .bind (.inScene _) fun _ => .pure _
  | invoke system command => exact .bind (.invokeSystem system command) fun _ => .pure _
  | spawn label pose =>
    exact .bind (.inScene _) fun _ => .bind (.onHost fun _ => rfl) fun _ => .pure _
  | despawn label => exact .bind (.resolved label) fun _ => .bind (.inScene _) fun _ => .pure _
  | addComponent label component enabled =>
    exact .bind (.resolved label) fun _ => .bind (.inScene _) fun _ => .pure _
  | setComponent label component enabled =>
    exact .bind (.resolved label) fun entity =>
      .bind (.setComponent entity component enabled) fun _ => .pure _
  | setPose label pose =>
    exact .bind (.resolved label) fun entity => .bind (.setPose entity pose) fun _ => .pure _
  | lock label =>
    exact .bind (.resolved label) fun _ => .bind (.onHost fun _ => rfl) fun _ => .pure _

theorem dispatch_isHarmless (run : Runner) {c : Command} (hc : c.isHarmless = true) :
    (dispatch run c).IsHarmless := by
  cases c with
  | edit change => exact change.apply_isHarmless hc
  | ask query => exact .read _
  | _ => cases hc

def Runner.SparesOthers (run : Runner) : Prop :=
  ∀ c : Command, c.isHarmless = true → (run c).IsHarmless

/-- As long as callbacks may nest at all. -/
theorem perform_sparesOthers (depth : Nat) : (perform (depth + 1)).SparesOthers :=
  fun _ hc => dispatch_isHarmless _ hc

theorem performAll_isHarmless {run : Runner} (h : run.SparesOthers) (l : List Command)
    (hl : ∀ c ∈ l, c.isHarmless = true) : (performAll run l).IsHarmless := by
  induction l with
  | nil => exact .pure ()
  | cons c rest ih =>
    exact .bind (h c (hl c List.mem_cons_self)) fun _ => .bind (.note rfl) fun _ =>
      ih fun d hd => hl d (List.mem_cons_of_mem c hd)

section

variable {A : Accord}

/-- What changes nothing but the host's own state accords where that does not count. -/
theorem Act.IsHarmless.accords {x y : Act Unit} (hx : x.IsHarmless) (hy : y.IsHarmless)
    (left : ∀ {s t u}, A.rel s t → Stage.Backdrop s u → A.rel u t)
    (right : ∀ {s t u}, A.rel s t → Stage.Backdrop t u → A.rel s u) : Act.Accords A x y := by
  intro s t hst
  obtain ⟨hxs, hleft⟩ := hx s
  obtain ⟨hyt, hright⟩ := hy t
  refine ⟨?_, right (left hst hleft) hright⟩
  generalize (x s).1 = r at hxs
  generalize (y t).1 = r' at hyt
  cases r with
  | error e => exact absurd hxs Bool.false_ne_true
  | ok a =>
    cases r' with
    | error e => exact absurd hyt Bool.false_ne_true
    | ok b => exact .ok rfl

/-- Sequences that keep to themselves are carried by an accord in which the host's own state does not
count and their barriers are the same. -/
theorem Accord.carries_apart {run run' : Runner} (hrun : run.SparesOthers)
    (hrun' : run'.SparesOthers) {named own : String → Prop} (hcast : A.cast = .apart named own)
    (left : ∀ {s t u}, A.rel s t → Stage.Backdrop s u → A.rel u t)
    (right : ∀ {s t u}, A.rel s t → Stage.Backdrop t u → A.rel s u)
    (count : ∀ {s t b}, A.rel s t → own b → t.barriers.count b = s.barriers.count b)
    (arrive : ∀ {s t b}, A.rel s t → own b → A.rel (s.arrive b) (t.arrive b)) :
    A.Carries run run' := by
  have hcode : ∀ l : List Command, (∀ c ∈ l, c.isHarmless = true) →
      Act.Accords A (performAll run l) (performAll run' l) := fun l hl =>
    (performAll_isHarmless hrun l hl).accords (performAll_isHarmless hrun' l hl) left right
  have hasked : ∀ c : Condition, c.IsOwn → A.Answers c := by
    rintro c ⟨f, hf⟩ s t _ owner polls
    rw [hf, hf]
    exact .ok rfl
  refine ⟨⟨?_, ?_⟩, ?_⟩
  · rw [hcast]
    exact hcode
  · rw [hcast]
    exact hasked
  · rw [hcast]
    intro x owner _ hx
    refine Step.Each.mono (fun y hy => ?_)
      (fun q hq => ⟨hcode q.code hq.code, hasked _ hq.answers⟩) x hx
    cases y with
    | call commands => exact hcode commands hy
    | barrier barrier expected =>
      exact ⟨fun _ _ hst => count hst hy, fun _ _ hst => arrive hst hy⟩
    | custom onEnter onTick onExit script =>
      refine ⟨hcode onEnter fun c hc => hy c ?_, hcode onTick fun c hc => hy c ?_,
        hcode onExit fun c hc => hy c ?_⟩ <;> simp [hc]
    | wait seconds => trivial
    | frames count => trivial
    | publish event => trivial
    | probe probe script => trivial
    | _ => cases hy

end

end Sequencer
