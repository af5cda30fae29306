import Sequencer.Play.Composite
import Sequencer.Proofs.Course.Acts

/-!
# Plays side by side

The same play with two progresses in its hands, on one and the same stage. A relation between
the two says what they have in common; the rules follow the ways in which plays are put together.
-/

set_option autoImplicit false

namespace Sequencer

def Play.Pairs {π α : Type} (R : π → π → Prop) (x y : Play π α) (S : π → π → Prop) : Prop :=
  ∀ p q s, R p q → (x (p, s)).1 = (y (q, s)).1 ∧ (x (p, s)).2.2 = (y (q, s)).2.2 ∧
    ((x (p, s)).1.isOk = true → S (x (p, s)).2.1 (y (q, s)).2.1)

namespace Play.Pairs

variable {π σ α β : Type} {R S T R' S' : π → π → Prop}

/-- Plays do nothing but what their progress and the stage tell them. -/
theorem self (x : Play π α) : Pairs Eq x x Eq := by
  intro p q s h
  subst h
  exact ⟨rfl, rfl, fun _ => rfl⟩

theorem mono {x y : Play π α} (h : Pairs R x y S) (hR : ∀ p q, R' p q → R p q)
    (hS : ∀ p q, S p q → S' p q) : Pairs R' x y S' := by
  intro p q s hpq
  obtain ⟨ha, hs, hr⟩ := h p q s (hR p q hpq)
  exact ⟨ha, hs, fun hok => hS _ _ (hr hok)⟩

theorem pure (a : α) (h : ∀ p q, R p q → S p q) :
    Pairs R (pure a : Play π α) (pure a) S :=
  fun p q _ hpq => ⟨rfl, rfl, fun _ => h p q hpq⟩

theorem change {f g : π → π} (h : ∀ p q, R p q → S (f p) (g q)) :
    Pairs R (Play.change f) (Play.change g) S :=
  fun p q _ hpq => ⟨rfl, rfl, fun _ => h p q hpq⟩

theorem write {a b : π} (h : ∀ p q, R p q → S a b) : Pairs R (Play.write a) (Play.write b) S :=
  fun p q _ hpq => ⟨rfl, rfl, fun _ => h p q hpq⟩

theorem onStage (act : Act α) : Pairs R (Play.onStage act) (Play.onStage act) R :=
  fun _ _ _ hpq => ⟨rfl, rfl, fun _ => hpq⟩

theorem say (n : Notice) : Pairs R (Play.say n) (Play.say n) R := onStage _

theorem note (e : Entry) : Pairs R (Play.note e) (Play.note e) R := onStage _

theorem settings : Pairs R Play.settings Play.settings R := onStage _

theorem bind {x y : Play π α} {f g : α → Play π β} (h : Pairs R x y T)
    (hf : ∀ a, Pairs T (f a) (g a) S) : Pairs R (x >>= f) (y >>= g) S := by
  intro p q s hpq
  obtain ⟨ha, hs, hr⟩ := h p q s hpq
  rw [Play.bind_apply, Play.bind_apply]
  rcases hx : x (p, s) with ⟨a, p', t⟩
  rcases hy : y (q, s) with ⟨b, q', u⟩
  rw [hx, hy] at ha hs hr
  obtain rfl : a = b := ha
  obtain rfl : t = u := hs
  cases a with
  | error e => exact ⟨rfl, rfl, fun hok => nomatch hok⟩
  | ok a => exact hf a p' q' t (hr rfl)

/-- What follows may look at the progress, and so may differ on the two sides. -/
theorem read {f g : π → Play π β}
    (h : ∀ p q, R p q → Pairs (fun p' q' => p' = p ∧ q' = q) (f p) (g q) S) :
    Pairs R (Play.read >>= f) (Play.read >>= g) S :=
  fun p q s hpq => h p q hpq p q s ⟨rfl, rfl⟩

theorem ite {c : Prop} [Decidable c] {x y x' y' : Play π α} (hx : c → Pairs R x x' S)
    (hy : ¬ c → Pairs R y y' S) : Pairs R (if c then x else y) (if c then x' else y') S := by
  by_cases hc : c
  · rw [if_pos hc, if_pos hc]
    exact hx hc
  · rw [if_neg hc, if_neg hc]
    exact hy hc

theorem part {P Q : σ → σ → Prop} {get : σ → π} {put : π → σ → σ} {x y : Play π α}
    (h : Pairs R x y S) (hget : ∀ a b, P a b → R (get a) (get b))
    (hput : ∀ a b p q, P a b → S p q → Q (put p a) (put q b)) :
    Pairs P (Play.part get put x) (Play.part get put y) Q := by
  intro a b s hab
  obtain ⟨ha, hs, hr⟩ := h (get a) (get b) s (hget a b hab)
  exact ⟨ha, hs, fun hok => hput a b _ _ hab (hr hok)⟩

theorem first {P Q : π × σ → π × σ → Prop} {x y : Play π α} (h : Pairs R x y S)
    (hget : ∀ a b, P a b → R a.1 b.1) (hput : ∀ a b p q, P a b → S p q → Q (p, a.2) (q, b.2)) :
    Pairs P (Play.first x) (Play.first y) Q := part h hget hput

theorem second {P Q : σ × π → σ × π → Prop} {x y : Play π α} (h : Pairs R x y S)
    (hget : ∀ a b, P a b → R a.2 b.2) (hput : ∀ a b p q, P a b → S p q → Q (a.1, p) (b.1, q)) :
    Pairs P (Play.second x) (Play.second y) Q := part h hget hput

end Play.Pairs

namespace Cue

variable {π : Type} {R S T : π → π → Prop} (c : Cue)

theorem enter_pairs {x y : Play π Unit} (h : Play.Pairs R x y S) :
    Play.Pairs R (c.enter x) (c.enter y) S := by
  apply Play.Pairs.bind (.note _)
  intro _
  apply Play.Pairs.bind h
  exact fun _ => .note _

theorem exit_pairs {x y : Play π Unit} (h : Play.Pairs R x y S) :
    Play.Pairs R (c.exit x) (c.exit y) S := by
  apply Play.Pairs.bind (.note _)
  intro _
  apply Play.Pairs.bind h
  exact fun _ => .note _

theorem tick_pairs {x y : Play π Status} (dt : Float32) (h : Play.Pairs R x y S) :
    Play.Pairs R (c.tick dt x) (c.tick dt y) S := by
  apply Play.Pairs.bind (.note _)
  intro _
  apply Play.Pairs.bind h
  intro status
  exact .bind (.note _) fun _ => .pure status fun _ _ h => h

variable {source : Source} {label : String} {index : Nat}

theorem openStep_pairs {x y : Play π Unit} {fresh : Bool}
    (h : fresh = true → Play.Pairs R x y S) (hold : fresh = false → ∀ p q, R p q → S p q) :
    Play.Pairs R (c.openStep source label index fresh x)
      (c.openStep source label index fresh y) S := by
  apply Play.Pairs.ite
  · intro hf
    apply Play.Pairs.bind .settings
    intro _
    apply Play.Pairs.ite
    · exact fun _ => .bind (.say _) fun _ => c.enter_pairs (h hf)
    · exact fun _ => c.enter_pairs (h hf)
  · intro hf
    exact .pure () (hold (by simpa using hf))

theorem closeStep_pairs {x y : Play π Unit} {status : Status} (h : Play.Pairs R x y R) :
    Play.Pairs R (c.closeStep source label index status x)
      (c.closeStep source label index status y) R := by
  apply Play.Pairs.ite
  · intro _
    apply Play.Pairs.bind (c.exit_pairs h)
    intro _
    apply Play.Pairs.bind .settings
    intro _
    exact .ite (fun _ => .say _) fun _ => .pure () fun _ _ h => h
  · exact fun _ => .pure () fun _ _ h => h

/-- A step that is driven is entered if it was not, and then ticked. -/
theorem drive_pairs {enter enter' exit exit' : Play π Unit} {tick tick' : Play π Status}
    {dt : Float32} {fresh : Bool} (he : fresh = true → Play.Pairs R enter enter' S)
    (hold : fresh = false → ∀ p q, R p q → S p q) (ht : Play.Pairs S tick tick' S)
    (hx : Play.Pairs S exit exit' S) :
    Play.Pairs R (c.drive source label index dt fresh enter tick exit)
      (c.drive source label index dt fresh enter' tick' exit') S := by
  apply Play.Pairs.bind (c.openStep_pairs he hold)
  intro _
  apply Play.Pairs.bind (c.tick_pairs dt ht)
  intro status
  apply Play.Pairs.bind (c.closeStep_pairs hx)
  exact fun _ => .pure status fun _ _ h => h

end Cue

theorem Quorum.conclude_pairs {π : Type} {R : π → π → Prop} (mode : Quorum) (owner : String)
    (settled : List Status) (pending : Nat) :
    Play.Pairs R (mode.conclude owner settled pending) (mode.conclude owner settled pending) R := by
  unfold Quorum.conclude
  split
  · apply Play.Pairs.ite
    · exact fun _ => .bind (.say _) fun _ => .pure _ fun _ _ h => h
    · exact fun _ => .pure _ fun _ _ h => h
  · exact .pure _ fun _ _ h => h

end Sequencer
