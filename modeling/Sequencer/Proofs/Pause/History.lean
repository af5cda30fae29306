import Sequencer.Proofs.Moments
import Sequencer.Proofs.Pause.SelfContained
import Sequencer.Proofs.Turns

/-!
# Histories of a sequence

Seen from one sequence, a run is the list of what is done to it: its turns, each with the time it
is given, and the starts, resets, restores and stops of it. Whatever else happens between them,
among it any number of frames that find the sequence paused, leaves it as it is. So two runs with
the same history call self-contained steps alike, and complete the sequence alike.
-/

set_option autoImplicit false

namespace Sequencer

open Site (Nowhere Within)

/-- What is done to a sequence. -/
inductive Doing
  /-- Its turn comes and does not find it paused. -/
  | turn (dt : Float32)
  | start
  | reset
  | restore (index : Nat)
  /-- A stop or a removal ends its run. -/
  | stop

inductive Doing.Does (run : Runner) (id : Nat) : Doing → Moment → Moment → Prop
  | turned {pending : List Errand} {s t : Stage} {dt : Float32} {r : Except Halt Unit} :
      (s.sequence id).paused = false → s.turnOf id ≠ .completed →
      Conductor.takeTurn run dt id s = (r, t) → Does run id (.turn dt) ⟨pending, s⟩ ⟨pending, t⟩
  | completed {pending : List Errand} {s t : Stage} {dt : Float32} :
      Errand.Begins (.completing id) s t →
      Does run id (.turn dt) ⟨pending, s⟩ ⟨.completing id :: pending, t⟩
  | started {pending : List Errand} {s : Stage} {name : String} (n : Notice) :
      s.find? name = some id → (s.sequence id).running = false →
      Does run id .start ⟨pending, s⟩ ⟨pending, s.starting id n⟩
  | reset {pending : List Errand} {s : Stage} {name : String} : s.find? name = some id →
      Does run id .reset ⟨pending, s⟩ ⟨pending, s.rewinding id⟩
  | restored {pending : List Errand} {s : Stage} {name : String} (index : Nat) :
      s.find? name = some id →
      Does run id (.restore index) ⟨pending, s⟩ ⟨pending, s.restoring id index⟩
  | stopped {pending : List Errand} {s t : Stage} : Errand.Begins (.stopping id) s t →
      Does run id .stop ⟨pending, s⟩ ⟨.stopping id :: pending, t⟩
  | removed {pending : List Errand} {s t : Stage} : Errand.Begins (.removing id) s t →
      Does run id .stop ⟨pending, s⟩ ⟨.removing id :: pending, t⟩

/-- `History run id m l k`: from the moment `m` to the moment `k` the doings in `l`, in this order,
are what is done to the sequence. -/
inductive History (run : Runner) (id : Nat) (m : Moment) : List Doing → Moment → Prop
  | opening : History run id m [] m
  | other {l : List Doing} {k k' : Moment} : History run id m l k → Happens k k' →
      Untouched id k.stage k'.stage → History run id m l k'
  | does {l : List Doing} {d : Doing} {k k' : Moment} : History run id m l k →
      d.Does run id k k' → History run id m (l ++ [d]) k'

def Moment.Outside (id : Nat) (m : Moment) : Prop := ∀ q part, .driving id q part ∉ m.pending

structure Moment.AtHome (run : Runner) (id : Nat) (m : Moment) : Prop where
  kept : m.Kept
  outside : m.Outside id
  lt : id < m.stage.sequences.length
  contained : (m.stage.sequence id).SelfContained run id

theorem Moment.Outside.calledFrom {id : Nat} {pending : List Errand} {s : Stage} {σ : Site}
    (h : Moment.Outside id ⟨pending, s⟩) (hσ : calledFrom pending σ) : σ.root ≠ some id := by
  induction pending with
  | nil => exact False.elim hσ
  | cons e rest ih =>
    have hrest : Moment.Outside id ⟨rest, s⟩ :=
      fun q part he => h q part (List.mem_cons_of_mem _ he)
    cases e with
    | driving i q part =>
      have hw : Within (.top i q.current) σ := hσ
      rw [hw.root_eq]
      intro hi
      obtain rfl : i = id := Option.some.inj hi
      exact h q part List.mem_cons_self
    | _ => exact ih hrest hσ

/-! What is done elsewhere -/

namespace Errand

variable {id : Nat} {e : Errand} {s t : Stage}

/-- An operation that does not touch the sequence is one on another. -/
theorem Begins.leaves (h : e.Begins s t) (hu : Untouched id s t) :
    e.id ≠ id ∧ Stage.Leaves id s t := by
  cases h with
  | @driving _ i part _ _ _ =>
    have hi : i ≠ id := by
      simpa [Entry.touches] using hu.spared (l := []) (e := .turn i .driven) (k := []) rfl
    exact ⟨hi, .lending s hi⟩
  | @stopping _ name i n _ _ =>
    have hi := hu.spared (l := []) (e := .notified i _ .stopped _) (k := [.notice n]) rfl
    have hne := (Entry.ne_of_untouched (by simp) hi).symm
    exact ⟨hne, .ending s hne .stopped n⟩
  | @removing _ name i n _ _ =>
    have hi := hu.spared (l := []) (e := .notified i _ .stopped _) (k := [.notice n]) rfl
    have hne := (Entry.ne_of_untouched (by simp) hi).symm
    exact ⟨hne, (Stage.Leaves.unregister s name).trans (.ending _ hne .stopped n)⟩
  | @completing _ i n _ _ =>
    have hi := hu.spared (l := []) (e := .notified i _ .completed _)
      (k := [.notice n, .turn i .completed]) rfl
    have hne := (Entry.ne_of_untouched (by simp) hi).symm
    exact ⟨hne, (Stage.Leaves.note s (e := .turn i .completed) rfl).trans
      (.ending _ hne .completed n)⟩

theorem Ends.leaves (h : e.Ends s t) (hne : ∀ q part, e ≠ .driving id q part) :
    Stage.Leaves id s t := by
  have hother : ∀ {i q part}, e = .driving i q part → i ≠ id := by
    rintro i q part he rfl
    exact hne q part he
  cases h with
  | driven _ i q part p status =>
    exact (Stage.Leaves.afterPlay s (hother rfl) q _ _).trans (.sweep _ i)
  | broken _ i q part p h => exact .afterPlay s (hother rfl) q _ _
  | stopped _ i => exact .dropping s i
  | removed _ i => exact .delist s i
  | completed _ i => exact .sweep s i
  | abandoned => exact .refl id s

end Errand

theorem Stage.Leaves.steps {id : Nat} {s t : Stage} (h : Stage.Leaves id s t) :
    (t.sequence id).steps = (s.sequence id).steps := by
  have hsame : ∀ q : Sequence, q.core.steps = q.steps := fun _ => rfl
  rw [← hsame, h.core, hsame]

section

variable {run : Runner} {id : Nat} {m k k' : Moment}

/-- What does not touch the sequence leaves it as it is. -/
theorem Happens.leaves (h : Happens k k') (hk : k.AtHome run id)
    (hu : Untouched id k.stage k'.stage) : k'.AtHome run id ∧ Stage.Leaves id k.stage k'.stage := by
  suffices hl : k'.Outside id ∧ Stage.Leaves id k.stage k'.stage by
    refine ⟨⟨h.keeps hk.kept, hl.1, Nat.lt_of_lt_of_le hk.lt hl.2.length, fun x hx => ?_⟩, hl.2⟩
    rw [hl.2.steps] at hx
    exact hk.contained x hx
  cases h with
  | course hl =>
    exact ⟨hk.outside, hl.course.leaves hk.kept.chronicled.sound hk.lt
      (fun _ => hk.outside.calledFrom) hu⟩
  | @begins pending e s t hb =>
    obtain ⟨hne, hl⟩ := hb.leaves hu
    refine ⟨fun q part he => ?_, hl⟩
    rcases List.mem_cons.mp he with rfl | he
    · exact hne rfl
    · exact hk.outside q part he
  | @ends pending e s t he =>
    refine ⟨fun q part hq => hk.outside q part (List.mem_cons_of_mem _ hq), he.leaves ?_⟩
    rintro q part rfl
    exact hk.outside q part List.mem_cons_self

/-! What is done to the sequence -/

variable {d : Doing}

theorem Doing.Does.happens (hrun : run.Follows) (h : d.Does run id k k') : Happens k k' := by
  have course : ∀ {pending : List Errand} {calm : Bool} {s t : Stage},
      Leads Nowhere calm s t → Happens ⟨pending, s⟩ ⟨pending, t⟩ :=
    fun hl => .course (hl.widen fun _ => False.elim)
  cases h with
  | @turned pending s t dt r _ _ ht =>
    have hl : Leads Nowhere _ s _ := Conductor.takeTurn_follows hrun dt id s
    rw [ht] at hl
    exact course hl
  | completed hb => exact .begins hb
  | started n hn hidle => exact course (.started n hn hidle)
  | reset hn => exact course (.reset hn)
  | restored index hn => exact course (.restored index hn)
  | stopped hb => exact .begins hb
  | removed hb => exact .begins hb

theorem Doing.Does.outside (h : d.Does run id k k') (hk : k.Outside id) : k'.Outside id := by
  have hcons : ∀ {pending : List Errand} {e : Errand} {s : Stage},
      (∀ q part, e ≠ .driving id q part) → Moment.Outside id ⟨pending, s⟩ →
      ∀ t, Moment.Outside id ⟨e :: pending, t⟩ := by
    intro pending e s he ho t q part hq
    rcases List.mem_cons.mp hq with heq | hq
    · exact he q part heq.symm
    · exact ho q part hq
  cases h with
  | turned => exact hk
  | completed _ => exact hcons (by simp) hk _
  | started => exact hk
  | reset _ => exact hk
  | restored => exact hk
  | stopped _ => exact hcons (by simp) hk _
  | removed _ => exact hcons (by simp) hk _

theorem Errand.Begins.extends {e : Errand} {s t : Stage} (h : e.Begins s t)
    (he : ∀ i q part, e ≠ .driving i q part) : Extends Nowhere s t := by
  cases h with
  | driving => exact absurd rfl (he _ _ _)
  | @stopping _ _ i n _ _ => exact .ending s i .stopped n
  | @removing _ name i n _ _ => exact (Extends.unregister s name).trans (.ending _ i .stopped n)
  | @completing _ i n _ _ =>
    have hn : Extends Nowhere s (s.note (.turn i .completed)) :=
      .note (.refl Nowhere s) fun _ _ => trivial
    exact hn.trans (.ending _ i .completed n)

theorem Doing.Does.extends (hrun : run.Follows) (h : d.Does run id k k') (hs : k.stage.Sound) :
    Extends Nowhere k.stage k'.stage := by
  cases h with
  | @turned pending s t dt r _ _ ht =>
    have hl : Leads Nowhere _ s _ := Conductor.takeTurn_follows hrun dt id s
    rw [ht] at hl
    exact (hl.lasts hs).2
  | completed hb => exact hb.extends (by simp)
  | started n _ _ => exact .starting _ id n
  | reset _ => exact .rewinding _ id
  | restored index _ => exact .restoring _ id index
  | stopped hb => exact hb.extends (by simp)
  | removed hb => exact hb.extends (by simp)

theorem Doing.Does.atHome (hrun : run.Follows) (h : d.Does run id k k') (hk : k.AtHome run id) :
    k'.AtHome run id := by
  have he := h.extends hrun hk.kept.chronicled.sound
  refine ⟨(h.happens hrun).keeps hk.kept, h.outside hk.outside, Nat.lt_of_lt_of_le hk.lt he.length,
    fun x hx => ?_⟩
  rw [he.steps id hk.lt] at hx
  exact hk.contained x hx

end

namespace Alongside

variable {id : Nat} {s t : Stage}

/-- What is said to the host makes no difference. -/
theorem notice (h : s.Twins id t) (n n' : Notice) :
    Alongside id s (s.note (.notice n)) t (t.note (.notice n')) :=
  leaves h (.note s rfl) (.note t rfl)

theorem notify (h : s.Twins id t) (hook : Hook) :
    Alongside id s (s.notify id hook) t (t.notify id hook) := by
  rw [Stage.notify, Stage.notify, h.field Sequence.name fun _ => rfl,
    h.field (·.hook hook) fun q => by cases hook <;> rfl]
  exact note h _

theorem ending (h : s.Twins id t) (hook : Hook) (n n' : Notice) :
    Alongside id s (s.ending id hook n) t (t.ending id hook n') := by
  have he := modify h (f := Sequence.ended) fun _ => rfl
  have hn := he.trans (notice he.twins n n')
  exact hn.trans (notify hn.twins hook)

theorem starting (h : s.Twins id t) (n n' : Notice) :
    Alongside id s (s.starting id n) t (t.starting id n') := by
  have hm := modify h (f := Sequence.begun) fun _ => rfl
  have hn := hm.trans (notice hm.twins n n')
  have hb := hn.trans (note hn.twins (.began id))
  have hc := hb.trans (note hb.twins (.moved id .started 0))
  have hl := hc.trans (leaves hc.twins (.enlist _ id) (.enlist _ id))
  exact hl.trans (notify hl.twins .started)

theorem rewinding (h : s.Twins id t) :
    Alongside id s (s.rewinding id) t (t.rewinding id) := by
  have hm := modify h (f := Sequence.rewound) fun _ => rfl
  exact hm.trans (note hm.twins _)

theorem restoring (h : s.Twins id t) (index : Nat) :
    Alongside id s (s.restoring id index) t (t.restoring id index) := by
  have hm := modify h (f := Sequence.resumed index) fun _ => rfl
  exact hm.trans (leaves hm.twins (.restored s id index) (.restored t id index))

end Alongside

namespace Errand

variable {id : Nat} {e e' : Errand} {s s' t t' : Stage}

/-- A run that is ended by a stop or by a removal ends alike. -/
theorem Begins.stops_alongside (h : e.Begins s s') (h' : e'.Begins t t') (hst : s.Twins id t)
    (he : e = .stopping id ∨ e = .removing id) (he' : e' = .stopping id ∨ e' = .removing id) :
    Alongside id s s' t t' := by
  have ends : ∀ {e : Errand} {s s' : Stage}, e.Begins s s' → e = .stopping id ∨ e = .removing id →
      ∃ u n, Stage.Leaves id s u ∧ s' = u.ending id .stopped n := by
    intro e s s' h he
    cases h with
    | stopping n _ _ =>
      obtain rfl : _ = id := by simpa using he
      exact ⟨s, n, .refl _ s, rfl⟩
    | @removing _ name _ n _ _ =>
      obtain rfl : _ = id := by simpa using he
      exact ⟨s.unregister name, n, .unregister s name, rfl⟩
    | driving => exact absurd he (by simp)
    | completing => exact absurd he (by simp)
  obtain ⟨u, n, hu, rfl⟩ := ends h he
  obtain ⟨v, n', hv, rfl⟩ := ends h' he'
  have hl := Alongside.leaves hst hu hv
  exact hl.trans (.ending hl.twins .stopped n n')

theorem Begins.turnOf (h : Begins (.completing id) s t) :
    (s.sequence id).paused = false ∧ s.turnOf id = .completed := by
  cases h with
  | completing n hd hc => exact ⟨hd.unpaused, s.turnOf_completed hd hc⟩

theorem Begins.completes_alongside (h : Begins (.completing id) s s')
    (h' : Begins (.completing id) t t') (hst : s.Twins id t) : Alongside id s s' t t' := by
  cases h with
  | completing n _ _ =>
    cases h' with
    | completing n' _ _ =>
      have hn := Alongside.note hst (.turn id .completed)
      exact hn.trans (.ending hn.twins .completed n n')

end Errand

def Stage.completing (id : Nat) (s : Stage) : Stage :=
  let u := s.note (.turn id .completed)
  u.ending id .completed (.completed ((u.modify id Sequence.ended).sequence id).name)

/-- A turn completes only a sequence that runs and has no step left. -/
theorem Stage.past_end_of_turnOf (s : Stage) {id : Nat} (hp : (s.sequence id).paused = false)
    (h : s.turnOf id = .completed) :
    s.Due id ∧ (s.sequence id).stepCount ≤ (s.sequence id).current := by
  by_cases hr : (s.sequence id).running = true
  · by_cases hle : (s.sequence id).stepCount ≤ (s.sequence id).current
    · exact ⟨⟨hp, hr⟩, hle⟩
    · cases hb : (s.sequence id).ticking <;> simp [turnOf, hp, hr, hle, hb] at h
  · rw [s.turnOf_idle hp (by simpa using hr)] at h
    exact absurd h (by simp)

section

variable {run : Runner} {id : Nat} {m m' k k' a b : Moment} {d : Doing} {l : List Doing}

/-- The same doing does the same to self-contained steps, whatever else differs. -/
theorem Doing.Does.alongside (h : d.Does run id k k') (h' : d.Does run id a b)
    (hst : k.stage.Twins id a.stage) (hx : (k.stage.sequence id).SelfContained run id) :
    Alongside id k.stage k'.stage a.stage b.stage := by
  cases h with
  | turned hs hc ht =>
    cases h' with
    | @turned _ _ _ _ _ hs' _ ht' =>
      obtain ⟨-, ha⟩ := Conductor.takeTurn_alongside hst hx hs hs' hc _
      rw [ht, ht'] at ha
      exact ha
    | completed hb =>
      obtain ⟨hp, hturn⟩ := hb.turnOf
      exact absurd ((hst.turnOf hs hp).symm.trans hturn) hc
  | completed hb =>
    cases h' with
    | turned hs' hc' _ =>
      obtain ⟨hp, hturn⟩ := hb.turnOf
      exact absurd ((hst.turnOf hp hs').trans hturn) hc'
    | completed hb' => exact hb.completes_alongside hb' hst
  | started n _ _ =>
    cases h' with
    | started n' _ _ => exact .starting hst n n'
  | reset _ =>
    cases h' with
    | reset _ => exact .rewinding hst
  | restored index _ =>
    cases h' with
    | restored _ _ => exact .restoring hst index
  | stopped hb =>
    cases h' with
    | stopped hb' => exact hb.stops_alongside hb' hst (.inl rfl) (.inl rfl)
    | removed hb' => exact hb.stops_alongside hb' hst (.inl rfl) (.inr rfl)
  | removed hb =>
    cases h' with
    | stopped hb' => exact hb.stops_alongside hb' hst (.inr rfl) (.inl rfl)
    | removed hb' => exact hb.stops_alongside hb' hst (.inr rfl) (.inr rfl)

/-! Whole histories -/

namespace History

theorem atHome (h : History run id m l k) (hrun : run.Follows) (hm : m.AtHome run id) :
    k.AtHome run id := by
  induction h with
  | opening => exact hm
  | other _ hk hu ih => exact (hk.leaves ih hu).1
  | does _ hd ih => exact hd.atHome hrun ih

/-- As long as nothing is done to the sequence it stays as it is. -/
theorem leaves (h : History run id m [] k) (hrun : run.Follows) (hm : m.AtHome run id) :
    Stage.Leaves id m.stage k.stage := by
  generalize hl : [] = l at h
  induction h with
  | opening => exact .refl id _
  | other h hk hu ih => exact (ih hl).trans (hk.leaves (h.atHome hrun hm) hu).2
  | does _ _ _ => exact absurd hl (by simp)

/-- The last doing, and that nothing has been done since. -/
theorem last (h : History run id m (l ++ [d]) k) :
    ∃ a b, History run id m l a ∧ d.Does run id a b ∧ History run id b [] k := by
  generalize hl : l ++ [d] = l' at h
  induction h with
  | opening => exact absurd hl (by simp)
  | other _ hk hu ih =>
    obtain ⟨a, b, ha, hd, hb⟩ := ih hl
    exact ⟨a, b, ha, hd, hb.other hk hu⟩
  | @does l' d' k k' h hd _ =>
    obtain ⟨rfl, hd'⟩ := List.append_inj' hl rfl
    obtain rfl := List.singleton_inj.mp hd'
    exact ⟨k, k', h, hd, .opening⟩

/-- Histories of the same doings lead self-contained steps the same way. -/
theorem alongside (h : History run id m l k) (h' : History run id m' l k') (hrun : run.Follows)
    (hm : m.AtHome run id) (hm' : m'.AtHome run id) (hst : m.stage.Twins id m'.stage) :
    Alongside id m.stage k.stage m'.stage k'.stage := by
  induction h generalizing k' with
  | opening => exact .leaves hst (.refl id _) (h'.leaves hrun hm')
  | @other l k₁ k₂ h hk hu ih =>
    have ha := ih h'
    exact ha.trans (.leaves ha.twins (hk.leaves (h.atHome hrun hm) hu).2 (.refl id _))
  | @does l d k₁ k₂ h hd ih =>
    obtain ⟨a, b, hla, hdo, hb⟩ := h'.last
    have ha := ih hla
    have hdone := ha.trans (hd.alongside hdo ha.twins (h.atHome hrun hm).contained)
    have hbh := hdo.atHome hrun (hla.atHome hrun hm')
    exact hdone.trans (.leaves hdone.twins (.refl id _) (hb.leaves hrun hbh))

/-- A stretch without steps of its own that does not touch the sequence. -/
theorem course {pending : List Errand} {calm : Bool} {s t : Stage}
    (h : History run id m l ⟨pending, s⟩) (hl : Leads Nowhere calm s t)
    (hu : Untouched id s t) : History run id m l ⟨pending, t⟩ :=
  h.other (.course (hl.widen fun _ => False.elim)) hu

/-- A turn that does not find the sequence paused, with the callback that it may run. -/
theorem takeTurn {pending : List Errand} {s t : Stage} {dt : Float32} {r : Except Halt Unit}
    (h : History run id m l ⟨pending, s⟩) (hrun : run.Follows)
    (hs : (s.sequence id).paused = false) (ht : Conductor.takeTurn run dt id s = (r, t))
    (hback : s.turnOf id = .completed →
      ∀ e ∈ (s.completing id).newEntries t, e.touches id = false) :
    History run id m (l ++ [.turn dt]) ⟨pending, t⟩ := by
  by_cases hc : s.turnOf id = .completed
  · obtain ⟨hd, hle⟩ := s.past_end_of_turnOf hs hc
    have hcall : Leads Nowhere _ (s.completing id) _ :=
      Conductor.finish_leads Nowhere hrun id (s.note (.turn id .completed))
    have hdone : History run id m (l ++ [.turn dt]) ⟨.completing id :: pending, s.completing id⟩ :=
      h.does (.completed (.completing _ hd hle))
    rw [Conductor.takeTurn_unpaused hs, Conductor.turn_completed hd.running hle] at ht
    rcases hf : Conductor.finish run id (s.note (.turn id .completed)) with ⟨e | a, u⟩ <;>
      rw [hf] at ht hcall
    · obtain rfl : u = t := congrArg Prod.snd ht
      have hu : Untouched id _ u := .of_newEntries hcall.course.grows (hback hc)
      exact (hdone.course hcall hu).other (.ends (.abandoned u (by simp))) (.refl _ u)
    · obtain rfl : u.sweep id = t := congrArg Prod.snd ht
      have hsweep : Grows u (u.sweep id) := .of_eq (u.journal_sweep id)
      have ht : Untouched id (s.completing id) (u.sweep id) :=
        .of_newEntries (hcall.course.grows.trans hsweep) (hback hc)
      obtain ⟨hu, hut⟩ := ht.split hcall.course.grows hsweep
      exact (hdone.course hcall hu).other (.ends (.completed u id)) hut
  · exact h.does (.turned hs hc ht)

/-- A frame in which nothing but its own turn touches the sequence, and which does not find it
paused, adds that turn. -/
theorem frame {pending : List Errand} {s u v : Stage} {dt : Float32} {before after : List Nat}
    (h : History run id m l ⟨pending, s⟩) (hrun : run.Follows)
    (hs : s.active = before ++ id :: after)
    (hb : Conductor.takeTurns run dt before s = (.ok (), u)) (hu : Untouched id s u)
    (hp : (u.sequence id).paused = false) (ht : Conductor.takeTurn run dt id u = (.ok (), v))
    (hback : u.turnOf id = .completed →
      ∀ e ∈ (u.completing id).newEntries v, e.touches id = false)
    (hv : Untouched id v (Conductor.tick run dt s).2) :
    History run id m (l ++ [.turn dt]) ⟨pending, (Conductor.tick run dt s).2⟩ := by
  have hrest : Conductor.tick run dt s = Conductor.takeTurns run dt after v := by
    show Conductor.takeTurns run dt s.active s = _
    rw [hs, Conductor.takeTurns_append hb, Conductor.takeTurns, Act.bind_apply, ht]
  have hbefore : Leads Nowhere _ s _ := Conductor.takeTurns_follows hrun dt before s
  have hafter : Leads Nowhere _ v _ := Conductor.takeTurns_follows hrun dt after v
  rw [hb] at hbefore
  rw [hrest] at hv ⊢
  exact ((h.course hbefore hu).takeTurn hrun hp ht hback).course hafter hv

end History

end

end Sequencer
