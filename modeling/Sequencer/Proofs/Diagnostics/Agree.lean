import Sequencer.Session
import Sequencer.Proofs.Accord
import Sequencer.Proofs.Diagnostics.Blind

/-!
# Stages that agree but for the diagnostics

Two stages may have other settings and other sinks for their events, and agree in everything else:
in the sequences, the active list, the barriers, the rest of the host, what is held, and what has
happened apart from notices and events. On such stages every test has the same answer, and so has
every question that is not about the settings or the sink.
-/

set_option autoImplicit false

namespace Sequencer

def Entry.isSubstance : Entry → Bool
  | .notice _ => false
  | .published _ => false
  | _ => true

def Host.Same (h k : Host) : Prop := k = { h with muted := k.muted, events := k.events }

namespace Host.Same

variable {h k : Host}

theorem scene (e : h.Same k) : k.scene = h.scene := by rw [e]

theorem flags (e : h.Same k) : k.flags = h.flags := by rw [e]

theorem counters (e : h.Same k) : k.counters = h.counters := by rw [e]

theorem engine (e : h.Same k) : k.engine = h.engine := by rw [e]

theorem locked (e : h.Same k) : k.locked = h.locked := by rw [e]

theorem bookmarks (e : h.Same k) : k.bookmarks = h.bookmarks := by rw [e]

theorem resolve (e : h.Same k) : k.resolve = h.resolve := by
  funext label
  rw [e]
  rfl

end Host.Same

inductive Held.Akin : Held → Held → Prop
  | part {p q : Part} : p.Akin q → (∀ c ∈ p.step.commands, c.Blind) →
      Held.Akin (.part p) (.part q)
  | track {steps : List (Step Command)} {onFailure : OnFailure} {t u : Track (Children steps)} :
      t.Akin (childrenAkin steps) u → (∀ c ∈ stepsCommands steps, c.Blind) →
      Held.Akin (.track ⟨steps, onFailure, t⟩) (.track ⟨steps, onFailure, u⟩)
  | sequence {p q : Sequence} : p.Akin q → p.Fits .blind → Held.Akin (.sequence p) (.sequence q)

/-- The same stage but for the settings, the sink and the notices; the code on it is blind. -/
structure Stage.Agree (s t : Stage) : Prop where
  length : t.sequences.length = s.sequences.length
  akin : ∀ i, (s.sequence i).Akin (t.sequence i)
  fits : ∀ i, (s.sequence i).Fits .blind
  registry : t.registry = s.registry
  active : t.active = s.active
  barriers : t.barriers = s.barriers
  host : s.host.Same t.host
  held : ∀ slot, Option.Rel Held.Akin (s.held.get? slot) (t.held.get? slot)
  journal : t.journal.filter (·.isSubstance) = s.journal.filter (·.isSubstance)

theorem Site.Mates.eq {σ τ : Site} (h : Site.Mates (fun i j => i = j) σ τ) : τ = σ := by
  induction h with
  | top n h => rw [h]
  | held slot => rfl
  | child n _ ih => rw [ih]
  | otherwise n _ ih => rw [ih]

theorem Asker.Mates.eq {a b : Asker} (h : Asker.Mates (fun i j => i = j) a b) : b = a := by
  cases h with
  | step h => rw [h.eq]
  | guard h => rw [h]
  | validator n h => rw [h]

theorem Entry.Mates.eq {named : String → Prop} {e e' : Entry}
    (h : Entry.Mates named (fun i j => i = j) e e') : e' = e := by
  cases h with
  | polled _ _ h => rw [h.eq]
  | called _ h => rw [h.eq]
  | returned _ h => rw [h.eq]
  | bare _ => rfl
  | probeEntered _ _ => rfl
  | probeTicked _ _ _ _ => rfl
  | probeExited _ _ => rfl
  | notified _ _ _ h => rw [h]
  | turn _ h => rw [h]
  | drove _ h => rw [h]
  | began h => rw [h]
  | restored _ h => rw [h]
  | moved _ _ h => rw [h]
  | dropped _ h => rw [h]

/-- What publishing an event changes. -/
theorem Simple.publish_apply (e : Event) (s : Stage) : Simple.publish e s = (.ok (),
    if s.host.muted then s
    else { s.note (.published e) with
      host := { s.host with events := s.host.events ++ [e] } }) := by
  simp only [Simple.publish, Act.bind_apply, Act.read]
  split <;> rfl

namespace Stage.Agree

variable {s t : Stage} {i : Nat}

theorem find? (h : s.Agree t) (name : String) : t.find? name = s.find? name := by
  simp only [Stage.find?, h.registry]

theorem note (h : s.Agree t) (e : Entry) : (s.note e).Agree (t.note e) :=
  { h with journal := by simp [List.filter_cons, h.journal] }

theorem idleLeft (h : s.Agree t) {e : Entry} (he : e.isSubstance = false) : (s.note e).Agree t :=
  { h with journal := by simp [h.journal, he] }

theorem idleRight (h : s.Agree t) {e : Entry} (he : e.isSubstance = false) : s.Agree (t.note e) :=
  { h with journal := by simp [h.journal, he] }

theorem hosting (h : s.Agree t) {k k' : Host} (hk : k.Same k') :
    Stage.Agree { s with host := k } { t with host := k' } := { h with host := hk }

theorem arrive (h : s.Agree t) (barrier : String) : (s.arrive barrier).Agree (t.arrive barrier) :=
  { h.note (.arrived barrier) with barriers := congrArg (·.arrive barrier) h.barriers }

theorem holding (h : s.Agree t) {k k' : Table String Held}
    (hk : ∀ slot, Option.Rel Held.Akin (k.get? slot) (k'.get? slot)) :
    Stage.Agree { s with held := k } { t with held := k' } := { h with held := hk }

theorem modify (h : s.Agree t) {f g : Sequence → Sequence}
    (hf : (f (s.sequence i)).Akin (g (t.sequence i))) (hfits : (f (s.sequence i)).Fits .blind) :
    (s.modify i f).Agree (t.modify i g) := by
  have hlength := h.length
  have hat : ∀ n, ((s.modify i f).sequence n).Akin ((t.modify i g).sequence n) ∧
      ((s.modify i f).sequence n).Fits .blind := by
    intro n
    by_cases hn : n = i
    · subst hn
      by_cases hlt : n < s.sequences.length
      · rw [sequence_modify_self _ _ hlt, sequence_modify_self _ _ (by omega)]
        exact ⟨hf, hfits⟩
      · have hs : s.sequence n = {} := s.sequence_of_length_le (by omega)
        rw [sequence_of_length_le _ (by simp; omega), sequence_of_length_le _ (by simp; omega)]
        exact ⟨.refl _, hs ▸ h.fits n⟩
    · rw [sequence_modify_ne _ _ hn, sequence_modify_ne _ _ hn]
      exact ⟨h.akin n, h.fits n⟩
  exact { h with
    length := by simpa using hlength
    akin := fun n => (hat n).1
    fits := fun n => (hat n).2 }

theorem enlist (h : s.Agree t) (i : Nat) : (s.enlist i).Agree (t.enlist i) := by
  unfold Stage.enlist
  rw [h.active]
  split
  · exact h
  · exact { h with active := rfl }

theorem delist (h : s.Agree t) (i : Nat) : (s.delist i).Agree (t.delist i) :=
  { h with active := by simp only [Stage.delist, h.active] }

theorem unregister (h : s.Agree t) (name : String) :
    (s.unregister name).Agree (t.unregister name) :=
  { h with registry := by simp only [Stage.unregister, h.registry] }

theorem enroll (h : s.Agree t) {p q : Sequence} (hpq : p.Akin q) (hp : p.Fits .blind) :
    (s.enroll p).Agree (t.enroll q) := by
  have hlength := h.length
  have hat : ∀ n, ((s.enroll p).sequence n).Akin ((t.enroll q).sequence n) ∧
      ((s.enroll p).sequence n).Fits .blind := by
    intro n
    rw [sequence_enroll, sequence_enroll, hlength]
    split
    · exact ⟨hpq, hp⟩
    · exact ⟨h.akin n, h.fits n⟩
  exact { h with
    length := by simp [hlength]
    akin := fun n => (hat n).1
    fits := fun n => (hat n).2
    registry := by simp only [Stage.enroll, h.registry, hpq.name, hlength] }

theorem publishLeft (h : s.Agree t) (e : Event) : (Simple.publish e s).2.Agree t := by
  rw [Simple.publish_apply]
  split
  · exact h
  · have hnoted : (s.note (.published e)).Agree t := h.idleLeft rfl
    exact { hnoted with host := by rw [h.host]; rfl }

theorem publishRight (h : s.Agree t) (e : Event) : s.Agree (Simple.publish e t).2 := by
  rw [Simple.publish_apply]
  split
  · exact h
  · have hnoted : s.Agree (t.note (.published e)) := h.idleRight rfl
    exact { hnoted with host := by rw [h.host]; rfl }

theorem isRunning (h : s.Agree t) (name : String) : t.isRunning name = s.isRunning name := by
  simp only [Stage.isRunning, Stage.named?, h.find?]
  cases s.find? name with
  | none => rfl
  | some i => exact (h.akin i).running

theorem isPaused (h : s.Agree t) (name : String) : t.isPaused name = s.isPaused name := by
  simp only [Stage.isPaused, Stage.named?, h.find?]
  cases s.find? name with
  | none => rfl
  | some i => exact (h.akin i).paused

/-- What the registered sequences show is the same. -/
theorem registered (h : s.Agree t) {α : Type} {f : Sequence → α}
    (hf : ∀ {p q : Sequence}, p.Akin q → f q = f p) : t.registered.map f = s.registered.map f := by
  simp only [Stage.registered, h.registry, List.map_map]
  apply List.map_congr_left
  intro e _
  exact hf (h.akin e.2)

theorem view (h : s.Agree t) : t.view = s.view := by
  have hinfo : t.registered.map (·.info) = s.registered.map (·.info) :=
    h.registered fun hpq => hpq.info
  simp only [Stage.view, h.active, h.barriers, hinfo]

theorem summary (h : s.Agree t) : t.summary = s.summary := by
  unfold Stage.summary
  extract_lets line barrier
  have hlines : t.registered.map line = s.registered.map line :=
    h.registered fun hpq => by
      simp only [line, hpq.name, hpq.running, hpq.paused, hpq.current, hpq.stepCount]
  rw [hlines, h.registry, h.active, h.barriers]

end Stage.Agree

def Accord.diagnostic : Accord where
  rel := Stage.Agree
  mate i j := i = j
  cast := .blind
  calm := False
  akin h hm := hm ▸ h.akin _
  fits h _ := h.fits _
  find {s t name} h _ := by
    rw [h.find? name]
    cases s.find? name with
    | none => exact .none
    | some i => exact .some rfl
  modify h hm hf hfits := by
    subst hm
    exact h.modify hf hfits
  enlist h hm := hm ▸ h.enlist _
  delist h hm := hm ▸ h.delist _
  unregister h _ := h.unregister _
  note h he := he.eq ▸ h.note _
  noticeLeft _ h := h.idleLeft rfl
  noticeRight _ h := h.idleRight rfl
  publish e h := (h.publishLeft e).publishRight e

mutual

theorem Test.eval_agree {s t : Stage} (h : s.Agree t) (owner : String) (polls : Nat) :
    (test : Test) → test.eval t owner polls = test.eval s owner polls
  | .const _ => rfl
  | .flag _ => by rw [Test.eval, Test.eval, h.host.flags]
  | .counterAtLeast _ _ => by rw [Test.eval, Test.eval, h.host.counters]
  | .pollsAtLeast _ => rfl
  | .script _ => rfl
  | .hasSystem _ => by rw [Test.eval, Test.eval, h.host.scene]
  | .hasEntity _ => by rw [Test.eval, Test.eval, h.host.scene, h.host.resolve]
  | .running _ => by rw [Test.eval, Test.eval, h.isRunning]
  | .paused _ => by rw [Test.eval, Test.eval, h.isPaused]
  | .barrierAtLeast _ _ => by rw [Test.eval, Test.eval, h.barriers]
  | .owner _ => rfl
  | .frameAtLeast _ => by rw [Test.eval, Test.eval, h.host.engine]
  | .elapsedAtLeast _ => by rw [Test.eval, Test.eval, h.host.engine]
  | .timeScaleAbove _ => by rw [Test.eval, Test.eval, h.host.engine]
  | .panic _ => rfl
  | .not test => by rw [Test.eval, Test.eval, Test.eval_agree h owner polls test]
  | .all tests => by rw [Test.eval, Test.eval, evalAll_agree h owner polls tests]
  | .any tests => by rw [Test.eval, Test.eval, evalAny_agree h owner polls tests]

theorem evalAll_agree {s t : Stage} (h : s.Agree t) (owner : String) (polls : Nat) :
    (l : List Test) → evalAll t owner polls l = evalAll s owner polls l
  | [] => rfl
  | test :: rest => by
    rw [evalAll, evalAll, Test.eval_agree h owner polls test, evalAll_agree h owner polls rest]

theorem evalAny_agree {s t : Stage} (h : s.Agree t) (owner : String) (polls : Nat) :
    (l : List Test) → evalAny t owner polls l = evalAny s owner polls l
  | [] => rfl
  | test :: rest => by
    rw [evalAny, evalAny, Test.eval_agree h owner polls test, evalAny_agree h owner polls rest]

end

theorem Condition.answers_diagnostic (c : Condition) : Accord.diagnostic.Answers c :=
  fun _ _ h owner polls => ⟨c.test.eval_agree h owner polls, False.elim⟩

theorem Query.answer_agree {s t : Stage} (h : s.Agree t) (query : Query)
    (hq : (Command.ask query).looks = false) : query.answer t = query.answer s := by
  cases query with
  | settings => cases hq
  | events => cases hq
  | isPaused name => simp only [Query.answer, h.isPaused]
  | isRunning name => simp only [Query.answer, h.isRunning]
  | summary => simp only [Query.answer, h.summary]
  | _ =>
    simp only [Query.answer, h.find?, h.active, h.registry, h.barriers, h.host.scene,
      h.host.resolve]

end Sequencer
