import Sequencer.Play.Composite
import Sequencer.Proofs.Course.Acts
import Sequencer.Proofs.Entering.Keeps
import Sequencer.Proofs.Timing.Spans

/-!
# Plays that come to their end

Total correctness of plays in given surroundings: begun in one of the worlds there, a play does not
halt, leaves such a world behind, and does not operate on the orchestrator. A step that answers
every frame in this way and settles in a known frame is said to last until then.
-/

set_option autoImplicit false

namespace Sequencer

/-- How steps are built and called: the user code behind them, for whom they are called, how much
time may pass in a frame, and what the world may be like. -/
structure Surroundings where
  resolve : String → EntityId
  run : Runner
  owner : String
  dts : Float32 → Prop
  world : Stage → Prop
  /-- Worlds do not depend on what was noted. -/
  noted : ∀ s e, world s → world (s.note e)

structure HandsOff (s t : Stage) : Prop where
  sequences : t.sequences = s.sequences
  registry : t.registry = s.registry
  active : t.active = s.active

namespace HandsOff

variable {s t u : Stage}

theorem refl (s : Stage) : HandsOff s s := ⟨rfl, rfl, rfl⟩

theorem trans (h : HandsOff s t) (h' : HandsOff t u) : HandsOff s u :=
  ⟨h'.sequences.trans h.sequences, h'.registry.trans h.registry, h'.active.trans h.active⟩

theorem note (s : Stage) (e : Entry) : HandsOff s (s.note e) := ⟨rfl, rfl, rfl⟩

end HandsOff

namespace Surroundings

variable (E : Surroundings) {π σ α β : Type}

def Yields (P : π → Prop) (x : Play π α) (Q : α → π → Prop) : Prop :=
  ∀ p s, P p → E.world s →
    ∃ a q t, x (p, s) = (.ok a, q, t) ∧ Q a q ∧ E.world t ∧ HandsOff s t

namespace Yields

variable {E} {P : π → Prop} {Q : α → π → Prop} {R : β → π → Prop}

theorem mono {x : Play π α} {P' : π → Prop} {Q' : α → π → Prop} (h : E.Yields P x Q)
    (hP : ∀ p, P' p → P p) (hQ : ∀ a p, Q a p → Q' a p) : E.Yields P' x Q' := by
  intro p s hp hs
  obtain ⟨a, q, t, hx, hq, ht⟩ := h p s (hP p hp) hs
  exact ⟨a, q, t, hx, hQ a q hq, ht⟩

theorem pure (a : α) (h : ∀ p, P p → Q a p) : E.Yields P (pure a) Q :=
  fun p s hp hs => ⟨a, p, s, rfl, h p hp, hs, .refl s⟩

theorem change {f : π → π} {Q : π → Prop} (h : ∀ p, P p → Q (f p)) :
    E.Yields P (Play.change f) fun _ => Q :=
  fun p s hp hs => ⟨(), f p, s, rfl, h p hp, hs, .refl s⟩

theorem bind {x : Play π α} {f : α → Play π β} (hx : E.Yields P x Q)
    (hf : ∀ a, E.Yields (Q a) (f a) R) : E.Yields P (x >>= f) R := by
  intro p s hp hs
  obtain ⟨a, q, t, hxa, hq, ht, hst⟩ := hx p s hp hs
  obtain ⟨b, r, u, hfb, hr, hu, htu⟩ := hf a q t hq ht
  refine ⟨b, r, u, ?_, hr, hu, hst.trans htu⟩
  rw [Play.bind_apply, hxa]
  exact hfb

theorem read {f : π → Play π β} (h : ∀ p, P p → E.Yields (· = p) (f p) R) :
    E.Yields P (Play.read >>= f) R :=
  fun p s hp hs => h p hp p s rfl hs

theorem ite {c : Prop} [Decidable c] {x y : Play π α} (hx : c → E.Yields P x Q)
    (hy : ¬ c → E.Yields P y Q) : E.Yields P (if c then x else y) Q := by
  by_cases hc : c
  · rw [if_pos hc]
    exact hx hc
  · rw [if_neg hc]
    exact hy hc

theorem note (e : Entry) : E.Yields P (Play.note e) fun _ => P :=
  fun p s hp hs => ⟨(), p, s.note e, rfl, hp, E.noted s e hs, .note s e⟩

theorem say (n : Notice) : E.Yields P (Play.say n) fun _ => P := note _

theorem settings : E.Yields P Play.settings fun _ => P :=
  fun p s hp hs => ⟨s.settings, p, s, rfl, hp, hs, .refl s⟩

/-- A play on a part, given what it makes of each whole that the part may belong to. -/
theorem part {get : σ → π} {put : π → σ → σ} {x : Play π α} {P : σ → Prop} {Q : α → σ → Prop}
    (h : ∀ a, P a → E.Yields (· = get a) x fun v p => Q v (put p a)) :
    E.Yields P (Play.part get put x) Q := by
  intro a s ha hs
  obtain ⟨v, p, t, hx, hq, ht⟩ := h a ha (get a) s rfl hs
  refine ⟨v, put p a, t, ?_, hq, ht⟩
  simp only [Play.part, hx]

theorem first {x : Play π α} {P : π × σ → Prop} {Q : α → π × σ → Prop}
    (h : ∀ a, P a → E.Yields (· = a.1) x fun v p => Q v (p, a.2)) :
    E.Yields P (Play.first x) Q := part h

theorem second {x : Play π α} {P : σ × π → Prop} {Q : α → σ × π → Prop}
    (h : ∀ a, P a → E.Yields (· = a.2) x fun v p => Q v (a.1, p)) :
    E.Yields P (Play.second x) Q := part h

/-- What a play keeps anyway it keeps on its way to its end. -/
theorem keeping {x : Play π α} {I : π → Prop} (h : E.Yields P x Q) (hI : x.Keeps I) :
    E.Yields (fun p => P p ∧ I p) x fun a p => Q a p ∧ I p := by
  intro p s hp hs
  obtain ⟨a, q, t, hx, hq, ht⟩ := h p s hp.1 hs
  have hq' := hI p s hp.2
  rw [hx] at hq'
  exact ⟨a, q, t, hx, ⟨hq, hq'⟩, ht⟩

/-- What is needed may be used to see how the play goes. -/
theorem know {x : Play π α} (h : ∀ p, P p → E.Yields (· = p) x Q) : E.Yields P x Q :=
  fun p s hp hs => h p hp p s rfl hs

end Yields

def Lasts (tick : Float32 → Play π Status) (ok : Bool) (after : π → Prop) : Nat → π → Prop
  | 0, p => after p
  | n + 1, p => ∀ dt, E.dts dt →
    E.Yields (· = p) (tick dt) fun status q => status = .due ok n ∧ Lasts tick ok after n q

variable {E}

/-- A play lasts as long as something does that each tick brings nearer to its end. -/
theorem Lasts.of_invariant {tick : Float32 → Play π Status} {ok : Bool} {after : π → Prop}
    {I : Nat → π → Prop} (hI : ∀ n p dt, E.dts dt → I (n + 1) p →
      E.Yields (· = p) (tick dt) fun status q => status = .due ok n ∧ I n q)
    (hafter : ∀ p, I 0 p → after p) (n : Nat) {p : π} (h : I n p) :
    E.Lasts tick ok after n p := by
  induction n generalizing p with
  | zero => exact hafter p h
  | succ n ih =>
    intro dt hdt
    apply (hI n p dt hdt h).mono
    · exact fun _ hq => hq
    · exact fun status q hq => ⟨hq.1, ih hq.2⟩


end Surroundings

end Sequencer
