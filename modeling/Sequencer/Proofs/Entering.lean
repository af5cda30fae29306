import Sequencer.Proofs.Entering.Keeps
import Sequencer.Proofs.Entering.Pairs
import Sequencer.Session

/-!
# Entering a step anew

Entering erases what earlier activations left behind: whatever calls a step got before, from the
time it is entered on it answers as if it had just been built, and does the same to the world. So it
does up to the first call that halts. A choice whose question panics is neither rewound nor has it
chosen, but its owner takes it for entered: from then on it may go on with the list it had before.
-/

set_option autoImplicit false

namespace Sequencer

mutual

def Test.isStateless : Test → Bool
  | .pollsAtLeast _ => false
  | .script _ => false
  | .not test => test.isStateless
  | .all tests => testsStateless tests
  | .any tests => testsStateless tests
  | _ => true

def testsStateless : List Test → Bool
  | [] => true
  | t :: rest => t.isStateless && testsStateless rest

end

mutual

/-- One of the library's own steps, with no closure in it that has a state. -/
def Step.isStateless {κ : Type} : Step κ → Bool
  | .choose question yes no =>
    question.test.isStateless && (stepsStateless yes && stepsStateless no)
  | .await question _ _ => question.test.isStateless
  | .bounded _ _ steps => stepsStateless steps
  | .retry _ steps => stepsStateless steps
  | .group steps => stepsStateless steps
  | .parallel _ steps => stepsStateless steps
  | .probe _ _ => false
  | .custom _ _ _ _ => false
  | _ => true

def stepsStateless {κ : Type} : List (Step κ) → Bool
  | [] => true
  | s :: rest => s.isStateless && stepsStateless rest

end

mutual

/-- A stateless test does not look at how often it was asked. -/
theorem Test.eval_polls (s : Stage) (owner : String) (m n : Nat) : (t : Test) →
    t.isStateless = true → t.eval s owner m = t.eval s owner n
  | .const _, _ => rfl
  | .flag _, _ => rfl
  | .counterAtLeast _ _, _ => rfl
  | .hasSystem _, _ => rfl
  | .hasEntity _, _ => rfl
  | .running _, _ => rfl
  | .paused _, _ => rfl
  | .barrierAtLeast _ _, _ => rfl
  | .owner _, _ => rfl
  | .frameAtLeast _, _ => rfl
  | .elapsedAtLeast _, _ => rfl
  | .timeScaleAbove _, _ => rfl
  | .panic _, _ => rfl
  | .not t, h => by
    rw [Test.eval, Test.eval, Test.eval_polls s owner m n t h]
  | .all tests, h => by
    rw [Test.eval, Test.eval, evalAll_polls s owner m n tests h]
  | .any tests, h => by
    rw [Test.eval, Test.eval, evalAny_polls s owner m n tests h]

theorem evalAll_polls (s : Stage) (owner : String) (m n : Nat) : (l : List Test) →
    testsStateless l = true → evalAll s owner m l = evalAll s owner n l
  | [], _ => rfl
  | t :: rest, h => by
    rw [testsStateless, Bool.and_eq_true] at h
    rw [evalAll, evalAll, Test.eval_polls s owner m n t h.1, evalAll_polls s owner m n rest h.2]

theorem evalAny_polls (s : Stage) (owner : String) (m n : Nat) : (l : List Test) →
    testsStateless l = true → evalAny s owner m l = evalAny s owner n l
  | [], _ => rfl
  | t :: rest, h => by
    rw [testsStateless, Bool.and_eq_true] at h
    rw [evalAny, evalAny, Test.eval_polls s owner m n t h.1, evalAny_polls s owner m n rest h.2]

end

theorem ask_polls {asker : Asker} {owner : String} {c : Condition}
    (h : c.test.isStateless = true) (m n : Nat) : ask asker owner m c = ask asker owner n c := by
  have heval : (c.test.eval · owner m) = (c.test.eval · owner n) :=
    funext fun s => c.test.eval_polls s owner m n h
  rw [ask, ask, heval]

theorem inquire_polls {run : Runner} {asker : Asker} {owner : String} {q : Question Command}
    (h : q.test.isStateless = true) (m n : Nat) :
    inquire run asker owner m q = inquire run asker owner n q := by
  rw [inquire, inquire, ask_polls h m n]

section

variable {π ρ : Type} {R : Option Nat → π → π → Prop} {S : Option Nat → ρ → ρ → Prop}

theorem Track.Agree.rewound (hR : ∀ i p q, R i p q → R none p q) {live : Bool} {t u : Track π}
    (h : Track.Agree R live t u) : Track.Agree R true t.rewound u.rewound :=
  ⟨fun _ => ⟨rfl, rfl⟩, hR _ _ _ h.children⟩

/-- Two tracks at the same place, the child there entered if so told. -/
theorem Track.onChildren_pairs {x y : Play π Status} {i j : Option Nat}
    (h : Play.Pairs (R i) x y (R j)) (c c' : Nat) (b b' : Bool) :
    Play.Pairs (fun t u : Track π => t.cursor = c ∧ u.cursor = c' ∧ t.entered = b ∧
        u.entered = b' ∧ R i t.children u.children) (Track.onChildren x) (Track.onChildren y)
      (fun t u => t.cursor = c ∧ u.cursor = c' ∧ t.entered = b ∧ u.entered = b' ∧
        R j t.children u.children) := by
  apply Play.Pairs.part h
  · exact fun t u ht => ht.2.2.2.2
  · exact fun t u p q ht hp => ⟨ht.1, ht.2.1, ht.2.2.1, ht.2.2.2.1, hp⟩

theorem Track.tick_pairs {length : Nat} {onFailure : OnFailure}
    {drive : Nat → Bool → Play π Status} (hR : ∀ i p q, R i p q → R none p q)
    (h : ∀ i fresh, Play.Pairs (R (if fresh then none else some i)) (drive i fresh)
      (drive i fresh) (R (some i))) :
    Play.Pairs (Track.Agree R true) (Track.tick length onFailure drive)
      (Track.tick length onFailure drive) (Track.Agree R true) := by
  apply Play.Pairs.read
  rintro t u ⟨hplace, hchildren⟩
  obtain ⟨hcursor, hentered⟩ := hplace rfl
  rw [← hcursor, ← hentered]
  apply Play.Pairs.ite
  · intro _
    apply Play.Pairs.bind (T := fun t' u' => t'.cursor = t.cursor ∧ u'.cursor = t.cursor ∧
      t'.entered = true ∧ u'.entered = true ∧
      R (if !t.entered then none else some t.cursor) t'.children u'.children)
    · apply Play.Pairs.change
      rintro t' u' ⟨ht, hu⟩
      rw [ht, hu]
      refine ⟨rfl, hcursor.symm, rfl, rfl, ?_⟩
      cases he : t.entered <;> simpa [Track.place, he] using hchildren
    intro _
    apply Play.Pairs.bind (Track.onChildren_pairs (h t.cursor !t.entered) _ _ _ _)
    intro status
    apply Play.Pairs.ite
    · intro _
      apply Play.Pairs.pure
      rintro t' u' ⟨hc, hc', he, he', hr⟩
      refine ⟨fun _ => ⟨hc.trans hc'.symm, he.trans he'.symm⟩, ?_⟩
      simpa [Track.place, he, hc] using hr
    · intro _
      apply Play.Pairs.bind (T := Track.Agree R true)
      · apply Play.Pairs.change
        rintro t' u' ⟨hc, hc', -, -, hr⟩
        exact ⟨fun _ => ⟨congrArg (· + 1) (hc.trans hc'.symm), rfl⟩, hR _ _ _ hr⟩
      · intro _
        exact .ite (fun _ => .pure _ fun _ _ h => h) fun _ => .pure _ fun _ _ h => h
  · intro _
    apply Play.Pairs.pure
    rintro _ _ ⟨rfl, rfl⟩
    exact ⟨hplace, hchildren⟩

theorem Track.cancel_pairs {length : Nat} {exit : Nat → Play π Unit}
    (hR : ∀ i p q, R i p q → R none p q)
    (h : ∀ i, Play.Pairs (R (some i)) (exit i) (exit i) (R (some i))) :
    Play.Pairs (Track.Agree R true) (Track.cancel length exit) (Track.cancel length exit)
      (Track.Agree R true) := by
  apply Play.Pairs.read
  rintro t u ⟨hplace, hchildren⟩
  obtain ⟨hcursor, hentered⟩ := hplace rfl
  rw [← hcursor, ← hentered]
  have hend : ∀ i, Play.Pairs (fun t' u' : Track π => R i t'.children u'.children)
      (Play.change fun t => { t with entered := false, cursor := length })
      (Play.change fun t => { t with entered := false, cursor := length })
      (Track.Agree R true) := by
    intro i
    apply Play.Pairs.change
    exact fun t' u' hr => ⟨fun _ => ⟨rfl, rfl⟩, hR _ _ _ hr⟩
  apply Play.Pairs.ite
  · intro hc
    have hentered : t.entered = true := by
      simp only [Bool.and_eq_true] at hc
      exact hc.1
    have hexit : Play.Pairs (fun t' u' => t' = t ∧ u' = u) (Track.onChildren (exit t.cursor))
        (Track.onChildren (exit t.cursor))
        (fun t' u' => R (some t.cursor) t'.children u'.children) := by
      apply Play.Pairs.part (h t.cursor)
      · rintro t' u' ⟨ht, hu⟩
        rw [ht, hu]
        simpa [Track.place, hentered] using hchildren
      · exact fun _ _ _ _ _ hp => hp
    exact .bind hexit fun _ => hend _
  · intro _
    have hstart : ∀ t' u' : Track π, t' = t ∧ u' = u →
        R (if true then t.place else none) t'.children u'.children := by
      rintro t' u' ⟨ht, hu⟩
      rw [ht, hu]
      exact hchildren
    exact (hend _).mono hstart fun _ _ h => h

theorem ChoiceProgress.enter_pairs {run : Runner} {cue : Cue} {question : Question Command}
    (hR : ∀ i p q, R i p q → R none p q) (hS : ∀ i p q, S i p q → S none p q)
    (hq : question.test.isStateless = true) :
    Play.Pairs (ChoiceProgress.Agree R S false) (ChoiceProgress.enter run cue question)
      (ChoiceProgress.enter run cue question) (ChoiceProgress.Agree R S true) := by
  have hpolls : Play.Pairs (ChoiceProgress.Agree R S false)
      (Play.change fun p : ChoiceProgress π ρ => { p with polls := p.polls + 1 })
      (Play.change fun p => { p with polls := p.polls + 1 }) (ChoiceProgress.Agree R S false) := by
    apply Play.Pairs.change
    exact fun p q h => ⟨of_idle, h.yes, h.no⟩
  apply Play.Pairs.bind hpolls
  intro _
  apply Play.Pairs.read
  intro p q hpq
  rw [inquire_polls hq p.polls q.polls]
  apply Play.Pairs.bind (.onStage _)
  intro answer
  apply Play.Pairs.ite
  · intro _
    apply Play.Pairs.change
    rintro p' q' ⟨hp, hq⟩
    rw [hp, hq]
    exact ⟨fun _ => rfl, hpq.yes.rewound hR, hpq.no⟩
  · intro _
    apply Play.Pairs.change
    rintro p' q' ⟨hp, hq⟩
    rw [hp, hq]
    exact ⟨fun _ => rfl, hpq.yes, hpq.no.rewound hS⟩

theorem ChoiceProgress.tick_pairs {yes : Play (Track π) Status} {no : Play (Track ρ) Status}
    (hy : Play.Pairs (Track.Agree R true) yes yes (Track.Agree R true))
    (hn : Play.Pairs (Track.Agree S true) no no (Track.Agree S true)) :
    Play.Pairs (ChoiceProgress.Agree R S true) (ChoiceProgress.tick yes no)
      (ChoiceProgress.tick yes no) (ChoiceProgress.Agree R S true) := by
  apply Play.Pairs.read
  rintro p q ⟨hsecond, hyes, hno⟩
  rw [← hsecond rfl]
  apply Play.Pairs.ite
  · intro hs
    rw [hs] at hyes hno
    apply Play.Pairs.part hn
    · rintro p' q' ⟨hp, hq⟩
      rw [hp, hq]
      exact hno
    · rintro p' q' t u ⟨hp, hq⟩ h
      rw [hp, hq]
      refine ⟨fun _ => hsecond rfl, ?_, ?_⟩
      · rw [show (ChoiceProgress.second { p with no := t }) = true from hs]
        exact hyes
      · rw [show (ChoiceProgress.second { p with no := t }) = true from hs]
        exact h
  · intro hs
    rw [Bool.not_eq_true] at hs
    rw [hs] at hyes hno
    apply Play.Pairs.part hy
    · rintro p' q' ⟨hp, hq⟩
      rw [hp, hq]
      exact hyes
    · rintro p' q' t u ⟨hp, hq⟩ h
      rw [hp, hq]
      refine ⟨fun _ => hsecond rfl, ?_, ?_⟩
      · rw [show (ChoiceProgress.second { p with yes := t }) = false from hs]
        exact h
      · rw [show (ChoiceProgress.second { p with yes := t }) = false from hs]
        exact hno

theorem BoundedProgress.tick_pairs {owner : String} {seconds : Float32} {policy : Expiry}
    {dt : Float32} {body : Play (Track π) Status} {cancel : Play (Track π) Unit}
    (hb : Play.Pairs (Track.Agree R true) body body (Track.Agree R true))
    (hc : Play.Pairs (Track.Agree R true) cancel cancel (Track.Agree R true)) :
    Play.Pairs (BoundedProgress.Agree R true)
      (BoundedProgress.tick owner seconds policy dt body cancel)
      (BoundedProgress.tick owner seconds policy dt body cancel)
      (BoundedProgress.Agree R true) := by
  have hpass : Play.Pairs (BoundedProgress.Agree R true)
      (Play.change fun p => { p with elapsed := p.elapsed + dt })
      (Play.change fun p => { p with elapsed := p.elapsed + dt })
      (BoundedProgress.Agree R true) := by
    apply Play.Pairs.change
    exact fun p q h => ⟨fun _ => congrArg (· + dt) (h.elapsed rfl), h.body⟩
  have hbody : ∀ {α : Type} {x : Play (Track π) α} {p q : BoundedProgress π},
      BoundedProgress.Agree R true p q →
      Play.Pairs (Track.Agree R true) x x (Track.Agree R true) →
      Play.Pairs (fun p' q' => p' = p ∧ q' = q) (BoundedProgress.onBody x)
        (BoundedProgress.onBody x) (BoundedProgress.Agree R true) := by
    intro α x p q hpq hx
    apply Play.Pairs.part hx
    · rintro p' q' ⟨hp, hq⟩
      rw [hp, hq]
      exact hpq.body
    · rintro p' q' t u ⟨hp, hq⟩ h
      rw [hp, hq]
      exact ⟨hpq.elapsed, h⟩
  apply Play.Pairs.bind hpass
  intro _
  apply Play.Pairs.read
  intro p q hpq
  rw [← hpq.elapsed rfl, ← (hpq.body.place rfl).1]
  apply Play.Pairs.ite
  · intro _
    apply Play.Pairs.bind (.say _)
    intro _
    apply Play.Pairs.bind (hbody hpq hc)
    exact fun _ => .pure _ fun _ _ h => h
  · exact fun _ => hbody hpq hb

theorem RetryProgress.tick_pairs {owner : String} {attempts : UInt32}
    {body : Play (Track π) Status} (hR : ∀ i p q, R i p q → R none p q)
    (h : Play.Pairs (Track.Agree R true) body body (Track.Agree R true)) :
    Play.Pairs (RetryProgress.Agree R true) (RetryProgress.tick owner attempts body)
      (RetryProgress.tick owner attempts body) (RetryProgress.Agree R true) := by
  have hbody : Play.Pairs (RetryProgress.Agree R true) (RetryProgress.onBody body)
      (RetryProgress.onBody body) (RetryProgress.Agree R true) := by
    apply Play.Pairs.part h
    · exact fun p q hpq => hpq.body
    · exact fun p q t u hpq htu => ⟨hpq.failures, htu⟩
  apply Play.Pairs.bind hbody
  intro status
  cases status with
  | running => exact .pure _ fun _ _ h => h
  | succeeded => exact .pure _ fun _ _ h => h
  | failed =>
    have hfail : Play.Pairs (RetryProgress.Agree R true)
        (Play.change fun p => { p with failures := p.failures + 1 })
        (Play.change fun p => { p with failures := p.failures + 1 })
        (RetryProgress.Agree R true) := by
      apply Play.Pairs.change
      exact fun p q hpq => ⟨fun _ => congrArg (· + 1) (hpq.failures rfl), hpq.body⟩
    apply Play.Pairs.bind hfail
    intro _
    apply Play.Pairs.read
    intro p q hpq
    have hpost : ∀ p' q', p' = p ∧ q' = q → RetryProgress.Agree R true p' q' := by
      rintro p' q' ⟨hp, hq⟩
      rw [hp, hq]
      exact hpq
    rw [← hpq.failures rfl]
    apply Play.Pairs.ite
    · intro _
      apply Play.Pairs.bind (.say _)
      exact fun _ => .pure _ hpost
    · intro _
      apply Play.Pairs.bind (T := RetryProgress.Agree R true)
      · apply Play.Pairs.change
        intro p' q' h
        exact ⟨(hpost p' q' h).failures, (hpost p' q' h).body.rewound hR⟩
      · exact fun _ => .pure _ fun _ _ h => h

end

section

variable {π : Type} {R : Bool → π → π → Prop} {cue : Cue}

theorem Lane.enter_pairs {body : Play π Unit} (h : Play.Pairs (R false) body body (R true)) :
    Play.Pairs (Lane.Agree R false) (Lane.enter cue body) (Lane.enter cue body)
      (Lane.Agree R true) := by
  apply Play.Pairs.bind (T := fun a b : Lane π =>
    a.settled = none ∧ b.settled = none ∧ R false a.child b.child)
  · apply Play.Pairs.change
    exact fun a b hab => ⟨rfl, rfl, hab.child⟩
  · intro _
    apply Play.Pairs.part (cue.enter_pairs h)
    · exact fun a b hab => hab.2.2
    · rintro a b p q ⟨ha, hb, -⟩ hpq
      refine ⟨fun _ => ha.trans hb.symm, ?_⟩
      rw [show (Lane.settled { a with child := p }) = none from ha]
      exact hpq

theorem Lane.tick_pairs {dt : Float32} {body : Play π Status} {exit : Play π Unit}
    (hR : ∀ live p q, R live p q → R false p q) (h : Play.Pairs (R true) body body (R true))
    (hx : Play.Pairs (R true) exit exit (R true)) :
    Play.Pairs (Lane.Agree R true) (Lane.tick cue dt body exit) (Lane.tick cue dt body exit)
      (Lane.Agree R true) := by
  have hchild : ∀ {α : Type} {x : Play π α}, Play.Pairs (R true) x x (R true) →
      Play.Pairs (fun a b : Lane π => a.settled = none ∧ b.settled = none ∧ R true a.child b.child)
        (Lane.onChild x) (Lane.onChild x)
        (fun a b => a.settled = none ∧ b.settled = none ∧ R true a.child b.child) := by
    intro α x hx
    apply Play.Pairs.part hx
    · exact fun a b hab => hab.2.2
    · exact fun a b p q hab hpq => ⟨hab.1, hab.2.1, hpq⟩
  apply Play.Pairs.read
  intro a b hab
  rw [← hab.settled rfl]
  apply Play.Pairs.ite
  · intro _
    apply Play.Pairs.pure
    rintro a' b' ⟨ha, hb⟩
    rw [ha, hb]
    exact hab
  · intro hs
    have hs : a.settled = none := by simpa using hs
    have hstart : ∀ a' b', a' = a ∧ b' = b →
        a'.settled = none ∧ b'.settled = none ∧ R true a'.child b'.child := by
      rintro a' b' ⟨ha, hb⟩
      rw [ha, hb]
      refine ⟨hs, (hab.settled rfl).symm.trans hs, ?_⟩
      simpa [hs] using hab.child
    apply Play.Pairs.bind ((hchild (cue.tick_pairs dt h)).mono hstart fun _ _ h => h)
    intro status
    apply Play.Pairs.ite
    · intro _
      apply Play.Pairs.pure
      rintro a' b' ⟨ha, hb, hR⟩
      refine ⟨fun _ => ha.trans hb.symm, ?_⟩
      rw [ha]
      exact hR
    · intro _
      apply Play.Pairs.bind (hchild (cue.exit_pairs hx))
      intro _
      apply Play.Pairs.bind (T := Lane.Agree R true)
      · apply Play.Pairs.change
        rintro a' b' ⟨-, -, hab'⟩
        exact ⟨fun _ => rfl, hR _ _ _ hab'⟩
      · exact fun _ => .pure _ fun _ _ h => h

end

theorem pendingLanes_agree : (l : List (Step Command)) → (a b : Lanes l) →
    agreeLanes l true a b → pendingLanes l a = pendingLanes l b
  | [], _, _, _ => rfl
  | _ :: rest, (lane, lanes), (lane', lanes'), h => by
    rw [pendingLanes, pendingLanes, h.1.settled rfl, pendingLanes_agree rest lanes lanes' h.2]

section

variable (run : Runner)

theorem Step.exit_pairs (s : Step Command) (cue : Cue) :
    Play.Pairs (s.Agree true) (s.exit run cue) (s.exit run cue) (s.Agree true) := by
  unfold Step.exit
  split
  · exact .note _
  · exact .onStage _
  · exact .pure () fun _ _ h => h

theorem Tween.enter_pairs (t : Tween) :
    Play.Pairs ((Step.tween t : Step Command).Agree false) t.enter t.enter
      ((Step.tween t : Step Command).Agree true) := by
  apply Play.Pairs.read
  intro p q hpq
  rw [← hpq.1]
  apply Play.Pairs.bind (.onStage _)
  intro start
  apply Play.Pairs.write
  intro _ _ _
  exact ⟨rfl, fun _ => rfl⟩

theorem Simple.arrive_pairs {R : BarrierProgress → BarrierProgress → Prop}
    (owner name : String) (expected : UInt32) :
    Play.Pairs R (Simple.arrive owner name expected) (Simple.arrive owner name expected) Eq := by
  apply Play.Pairs.bind (.onStage _)
  intro _
  apply Play.Pairs.bind (.onStage _)
  intro count
  apply Play.Pairs.bind (T := Eq)
  · exact .write fun _ _ _ => rfl
  · exact fun _ => .say _

theorem Simple.await_pairs {run : Runner} {cue : Cue} {question : Question Command}
    {limit : Option Float32} {policy : Expiry} {dt : Float32}
    (hq : question.test.isStateless = true) :
    Play.Pairs (fun p q => p.elapsed = q.elapsed) (Simple.await run cue question limit policy dt)
      (Simple.await run cue question limit policy dt) (fun p q => p.elapsed = q.elapsed) := by
  apply Play.Pairs.bind (T := fun p q => p.elapsed = q.elapsed)
  · exact .change fun _ _ h => h
  intro _
  apply Play.Pairs.read
  intro p q hpq
  rw [inquire_polls hq p.polls q.polls]
  have hpost : ∀ p' q', p' = p ∧ q' = q → p'.elapsed = q'.elapsed := by
    rintro p' q' ⟨hp, hq⟩
    rw [hp, hq]
    exact hpq
  apply Play.Pairs.bind (.onStage _)
  intro answer
  apply Play.Pairs.ite
  · exact fun _ => .pure _ hpost
  · intro _
    apply Play.Pairs.read
    intro p' q' h
    rw [← hpost p' q' h]
    apply Play.Pairs.bind (T := fun p q => p.elapsed = q.elapsed)
    · exact .change fun _ _ _ => rfl
    · intro _
      cases limit with
      | none => exact .pure _ fun _ _ h => h
      | some bound =>
        apply Play.Pairs.ite
        · exact fun _ => .bind (.say _) fun _ => .pure _ fun _ _ h => h
        · exact fun _ => .pure _ fun _ _ h => h

/-- A step that has nothing but its own numbers plays alike on the same numbers. -/
theorem Play.Pairs.same {π α : Type} (x : Play π α) :
    Pairs (fun p q => true = true → p = q) x x (fun p q => true = true → p = q) :=
  (self x).mono (fun _ _ h => h rfl) fun _ _ h _ => h

mutual

/-- Entered with progresses that may have nothing in common but the entities, a step has
everything in common that later calls can read. -/
theorem Step.enter_pairs : (s : Step Command) → (cue : Cue) → s.isStateless = true →
    Play.Pairs (s.Agree false) (s.enter run cue) (s.enter run cue) (s.Agree true)
  | .wait _, _, _ => .write fun _ _ _ _ => rfl
  | .frames _, _, _ => .write fun _ _ _ _ => rfl
  | .await _ _ _, _, _ => .change fun _ _ _ _ => rfl
  | .barrier name expected, cue, _ =>
    (Simple.arrive_pairs cue.owner name expected).mono (fun _ _ h => h) fun _ _ h _ => h
  | .tween t, _, _ => t.enter_pairs
  | .choose question yes no, cue, h => by
    have hq : question.test.isStateless = true := (Bool.and_eq_true_iff.mp h).1
    exact ChoiceProgress.enter_pairs (R := agreeChildren yes) (S := agreeChildren no)
      (fun _ => agreeChildren_idle yes) (fun _ => agreeChildren_idle no) hq
  | .bounded _ _ steps, _, _ => .change fun _ _ h =>
      ⟨fun _ => rfl, Track.Agree.rewound (R := agreeChildren steps)
        (fun _ => agreeChildren_idle steps) h.body⟩
  | .retry _ steps, _, _ => .change fun _ _ h =>
      ⟨fun _ => rfl, Track.Agree.rewound (R := agreeChildren steps)
        (fun _ => agreeChildren_idle steps) h.body⟩
  | .group steps, _, _ => .change fun _ _ h =>
      Track.Agree.rewound (R := agreeChildren steps) (fun _ => agreeChildren_idle steps) h
  | .parallel _ steps, cue, h => enterLanes_pairs steps cue 0 h
  | .component _ _ _, _, _ => .pure () fun _ _ h => h
  | .publish _, _, _ => .pure () fun _ _ h => h
  | .invoke _ _, _, _ => .pure () fun _ _ h => h
  | .call _, _, _ => .pure () fun _ _ h => h
  | .startSequence _, _, _ => .pure () fun _ _ h => h
  | .stopSequence _, _, _ => .pure () fun _ _ h => h

theorem enterLanes_pairs : (l : List (Step Command)) → (cue : Cue) → (index : Nat) →
    stepsStateless l = true → Play.Pairs (agreeLanes l false) (enterLanes run l cue index)
      (enterLanes run l cue index) (agreeLanes l true)
  | [], _, _, _ => .pure () fun _ _ h => h
  | s :: rest, cue, index, h => by
    obtain ⟨hs, hrest⟩ := Bool.and_eq_true_iff.mp h
    apply Play.Pairs.bind (T := fun a b : Lane s.Progress × Lanes rest =>
      Lane.Agree s.Agree true a.1 b.1 ∧ agreeLanes rest false a.2 b.2)
    · apply Play.Pairs.first (Lane.enter_pairs (Step.enter_pairs s (cue.child index) hs))
      · exact fun a b h => h.1
      · exact fun a b p q h hpq => ⟨hpq, h.2⟩
    · intro _
      apply Play.Pairs.second (enterLanes_pairs rest cue (index + 1) hrest)
      · exact fun a b h => h.2
      · exact fun a b p q h hpq => ⟨h.1, hpq⟩

end

theorem exitNth_pairs : (l : List (Step Command)) → (cue : Cue) → (n : Nat) →
    Play.Pairs (agreeChildren l (some n)) (exitNth run l cue n) (exitNth run l cue n)
      (agreeChildren l (some n))
  | [], _, _ => .pure () fun _ _ h => h
  | s :: _, cue, 0 => by
    apply Play.Pairs.first (cue.exit_pairs (Step.exit_pairs run s cue))
    · exact fun a b h => h.1
    · exact fun a b p q h hpq => ⟨hpq, h.2⟩
  | _ :: rest, cue, n + 1 => by
    apply Play.Pairs.second (exitNth_pairs rest cue n)
    · exact fun a b h => h.2
    · exact fun a b p q h hpq => ⟨h.1, hpq⟩

variable (dt : Float32)

mutual

/-- While it is under way a step answers alike, and has the same in common afterwards. -/
theorem Step.tick_pairs : (s : Step Command) → (cue : Cue) → s.isStateless = true →
    Play.Pairs (s.Agree true) (s.tick run dt cue) (s.tick run dt cue) (s.Agree true)
  | .wait seconds, _, _ => .same (Simple.wait seconds dt)
  | .frames count, _, _ => .same (Simple.frames count)
  | .barrier name expected, cue, _ => .same (Simple.barrier cue.owner name expected dt)
  | .await question limit policy, cue, h =>
    (Simple.await_pairs h).mono (fun _ _ h => h rfl) fun _ _ h _ => h
  | .tween t, cue, _ => (Play.Pairs.self (t.tick cue.owner dt)).mono (fun _ _ h => h.2 rfl)
      fun _ _ h => ⟨congrArg TweenProgress.entity h, fun _ => h⟩
  | .choose question yes no, cue, h => by
    obtain ⟨hyes, hno⟩ := Bool.and_eq_true_iff.mp (Bool.and_eq_true_iff.mp h).2
    exact ChoiceProgress.tick_pairs
      (Track.tick_pairs (fun _ => agreeChildren_idle yes)
        fun i fresh => driveNth_pairs yes (cue.child i) i i fresh hyes)
      (Track.tick_pairs (fun _ => agreeChildren_idle no)
        fun i fresh => driveNth_pairs no (cue.otherwise i) i i fresh hno)
  | .bounded _ _ steps, cue, h => BoundedProgress.tick_pairs
      (Track.tick_pairs (fun _ => agreeChildren_idle steps)
        fun i fresh => driveNth_pairs steps (cue.child i) i i fresh h)
      (Track.cancel_pairs (fun _ => agreeChildren_idle steps)
        fun i => exitNth_pairs run steps (cue.child i) i)
  | .retry _ steps, cue, h => RetryProgress.tick_pairs (fun _ => agreeChildren_idle steps)
      (Track.tick_pairs (fun _ => agreeChildren_idle steps)
        fun i fresh => driveNth_pairs steps (cue.child i) i i fresh h)
  | .group steps, cue, h => by
    rw [Step.tick]
    exact Track.tick_pairs (fun _ => agreeChildren_idle steps)
      fun i fresh => driveNth_pairs steps (cue.child i) i i fresh h
  | .parallel mode steps, cue, h => by
    apply Play.Pairs.bind (tickLanes_pairs steps cue 0 h)
    intro settled
    apply Play.Pairs.read
    intro a b hab
    rw [pendingLanes_agree steps a b hab]
    apply (mode.conclude_pairs cue.owner _ _).mono (fun _ _ h => h)
    rintro a' b' ⟨ha, hb⟩
    rw [ha, hb]
    exact hab
  | .component _ component enabled, cue, _ => .self _
  | .publish _, _, _ => .bind (.onStage _) fun _ => .pure _ fun _ _ h => h
  | .invoke _ _, _, _ => .onStage _
  | .call _, _, _ => .bind (.onStage _) fun _ => .pure _ fun _ _ h => h
  | .startSequence _, _, _ => .onStage _
  | .stopSequence _, _, _ => .bind (.onStage _) fun _ => .pure _ fun _ _ h => h

theorem driveNth_pairs : (l : List (Step Command)) → (cue : Cue) → (index n : Nat) →
    (fresh : Bool) → stepsStateless l = true →
    Play.Pairs (agreeChildren l (if fresh then none else some n))
      (driveNth run dt l cue index n fresh) (driveNth run dt l cue index n fresh)
      (agreeChildren l (some n))
  | [], _, _, _, _, _ => .pure _ fun _ _ _ => trivial
  | s :: rest, cue, index, 0, fresh, h => by
    obtain ⟨hs, -⟩ := Bool.and_eq_true_iff.mp h
    have hdrive : Play.Pairs (s.Agree !fresh)
        (cue.drive .flow s.label index dt fresh (s.enter run cue) (s.tick run dt cue)
          (s.exit run cue))
        (cue.drive .flow s.label index dt fresh (s.enter run cue) (s.tick run dt cue)
          (s.exit run cue)) (s.Agree true) := by
      apply Cue.drive_pairs
      · intro hf
        rw [hf]
        exact Step.enter_pairs run s cue hs
      · intro hf p q hpq
        rw [hf] at hpq
        exact hpq
      · exact Step.tick_pairs s cue hs
      · exact Step.exit_pairs run s cue
    apply Play.Pairs.first hdrive
    · intro a b h
      cases fresh <;> exact h.1
    · intro a b p q h hpq
      refine ⟨hpq, ?_⟩
      cases fresh <;> exact h.2
  | s :: rest, cue, index, n + 1, fresh, h => by
    obtain ⟨-, hrest⟩ := Bool.and_eq_true_iff.mp h
    apply Play.Pairs.second (driveNth_pairs rest cue index n fresh hrest)
    · intro a b h
      cases fresh <;> exact h.2
    · intro a b p q h hpq
      refine ⟨?_, hpq⟩
      cases fresh <;> exact h.1

theorem tickLanes_pairs : (l : List (Step Command)) → (cue : Cue) → (index : Nat) →
    stepsStateless l = true → Play.Pairs (agreeLanes l true) (tickLanes run dt l cue index)
      (tickLanes run dt l cue index) (agreeLanes l true)
  | [], _, _, _ => .pure _ fun _ _ h => h
  | s :: rest, cue, index, h => by
    obtain ⟨hs, hrest⟩ := Bool.and_eq_true_iff.mp h
    apply Play.Pairs.bind (T := agreeLanes (s :: rest) true)
    · apply Play.Pairs.first (Lane.tick_pairs (R := s.Agree) (fun _ => Step.Agree.idle s)
        (Step.tick_pairs s (cue.child index) hs) (Step.exit_pairs run s (cue.child index)))
      · exact fun a b h => h.1
      · exact fun a b p q h hpq => ⟨hpq, h.2⟩
    · intro status
      apply Play.Pairs.bind (T := agreeLanes (s :: rest) true)
      · apply Play.Pairs.second (tickLanes_pairs rest cue (index + 1) hrest)
        · exact fun a b h => h.2
        · exact fun a b p q h hpq => ⟨h.1, hpq⟩
      · exact fun _ => .pure _ fun _ _ h => h

end

end

def Step.answer (run : Runner) (s : Step Command) (cue : Cue) :
    Call → Play s.Progress (Option Status)
  | .enter => do
    s.enter run cue
    return none
  | .tick dt => do
    let status ← s.tick run dt cue
    return some status
  | .exit => do
    s.exit run cue
    return none

/-- What a history of calls may leave behind, whoever made them, in whatever worlds, and whether
or not they came to their end. -/
inductive Step.Left (s : Step Command) (p₀ : s.Progress) : s.Progress → Prop
  | nothing : s.Left p₀ p₀
  | called {p : s.Progress} (run : Runner) (cue : Cue) (call : Call) (world : Stage) :
      s.Left p₀ p → s.Left p₀ (s.answer run cue call (p, world)).2.1

/-- The answers to a series of calls, each in a world of its own, and what each call makes of that
world. Calls go on after one that halted. -/
def Step.answers (s : Step Command) (cue : Cue) :
    List (Runner × Call × Stage) → s.Progress → List (Except Halt (Option Status) × Stage)
  | [], _ => []
  | (run, c, world) :: rest, p =>
    let r := s.answer run cue c (p, world)
    (r.1, r.2.2) :: s.answers cue rest r.2.1

/-- The answers up to the first call that halted, and its own. -/
def untilHalt {α β : Type} : List (Except Halt α × β) → List (Except Halt α × β)
  | [] => []
  | a :: rest => a :: if a.1.isOk then untilHalt rest else []

theorem Step.answer_keeps (s : Step Command) (run : Runner) (cue : Cue) (call : Call)
    (p₀ : s.Progress) : (s.answer run cue call).Keeps (s.Agree false p₀) := by
  cases call with
  | enter => exact .bind (Step.enter_keeps run s cue p₀) fun _ => .pure _
  | tick dt => exact .bind (Step.tick_keeps run dt s cue p₀) fun _ => .pure _
  | exit => exact .bind (Step.exit_keeps run s cue p₀) fun _ => .pure _

theorem Step.Left.agree {s : Step Command} {p₀ p : s.Progress} (h : s.Left p₀ p) :
    s.Agree false p₀ p := by
  induction h with
  | nothing => exact Step.Agree.refl s false p₀
  | called run cue call world _ ih => exact s.answer_keeps run cue call p₀ _ world ih

theorem Step.answer_pairs (s : Step Command) (hs : s.isStateless = true) (run : Runner)
    (cue : Cue) (call : Call) :
    Play.Pairs (s.Agree true) (s.answer run cue call) (s.answer run cue call) (s.Agree true) := by
  have hreturn : ∀ r : Option Status, Play.Pairs (s.Agree true) (pure r) (pure r)
      (s.Agree true) := fun r => .pure r fun _ _ h => h
  cases call with
  | enter =>
    have henter : Play.Pairs (s.Agree true) (s.enter run cue) (s.enter run cue) (s.Agree true) :=
      (Step.enter_pairs run s cue hs).mono (Step.Agree.idle s) fun _ _ h => h
    exact .bind henter fun _ => hreturn none
  | tick dt => exact .bind (Step.tick_pairs run dt s cue hs) fun status => hreturn (some status)
  | exit => exact .bind (Step.exit_pairs run s cue) fun _ => hreturn none

/-- A call that halts may leave different progress behind, so the induction ends there. -/
theorem Step.Agree.answers {s : Step Command} (hs : s.isStateless = true) (cue : Cue)
    (calls : List (Runner × Call × Stage)) {p q : s.Progress} (h : s.Agree true p q) :
    untilHalt (s.answers cue calls p) = untilHalt (s.answers cue calls q) := by
  induction calls generalizing p q with
  | nil => rfl
  | cons visit rest ih =>
    obtain ⟨run, c, world⟩ := visit
    obtain ⟨hr, hw, hpost⟩ := s.answer_pairs hs run cue c p q world h
    rw [Step.answers, Step.answers, untilHalt, untilHalt]
    by_cases hok : (s.answer run cue c (p, world)).1.isOk = true
    · simp only [← hr, ← hw, if_pos hok, ih (hpost hok)]
    · simp only [← hr, ← hw, if_neg hok]

end Sequencer
