import Sequencer.Proofs.Timing.Steps
import Sequencer.Proofs.Visits.Orderly

/-!
# Counters

A wait for frames counts its frames and a retried list its failed passes, neither of them guarded
against running over. They are safe because a step that has settled is entered, which sets its
counter back, before it is ticked again.
-/

set_option autoImplicit false

namespace Sequencer

def Step.limit? : Step Command → Option UInt32
  | .frames count => some count
  | .retry attempts _ => some attempts
  | _ => none

def Step.counter : (s : Step Command) → s.Progress → UInt32
  | .frames _ => fun (counted : UInt32) => counted
  | .retry _ steps => fun (p : RetryProgress (Children steps)) => p.failures
  | _ => fun _ => 0

/-- Of the steps that count only the waits for frames are called so. -/
theorem Step.eq_frames {x : Step Command} {n : UInt32} (h : x.limit? = some n)
    (hlabel : x.label = "wait-frames") : x = .frames n := by
  cases x with
  | frames count => rw [Option.some.inj h]
  | retry _ _ => exact absurd hlabel (by simp [label])
  | _ => exact absurd h (by simp [limit?])

/-- A visit keeps a counter within its bound. Entering sets it back, and a frame leaves it or adds
one to it, as natural numbers. -/
structure Step.CountsWithin (x : Step Command) (bound : Nat) (v : Visit x.Progress) : Prop where
  before : (x.counter v.before).toNat ≤ bound
  after : (x.counter v.after).toNat ≤ bound
  counted : match v.call with
    | .enter => x.counter v.after = 0
    | .tick _ => (x.counter v.after).toNat = (x.counter v.before).toNat ∨
      (x.counter v.after).toNat = (x.counter v.before).toNat + 1
    | .exit => x.counter v.after = x.counter v.before

section

variable {x : Step Command} {n : UInt32} {run : Runner} {cue : Cue} {p q : x.Progress}
  {w t : Stage}

theorem toNat_succ_of_lt {c : UInt32} (h : c.toNat < max n.toNat 1) :
    (c + 1).toNat = c.toNat + 1 := by
  have hlt := n.toNat_lt
  rw [UInt32.toNat_add, UInt32.toNat_one]
  omega

/-- A frame of a retried list counts it if the list failed, and then answers whether that was the
last attempt. -/
theorem RetryProgress.tick_failures {π : Type} {owner : String} {attempts : UInt32}
    {body : Play (Track π) Status} {p q : RetryProgress π} {status : Status}
    (h : RetryProgress.tick owner attempts body (p, w) = (.ok status, q, t)) :
    q.failures = p.failures ∨ q.failures = p.failures + 1 ∧
      status = if p.failures + 1 ≥ budget attempts then .failed else .running := by
  rcases hb : body (p.body, w) with ⟨e | answer, b, u⟩ <;>
    simp only [RetryProgress.tick, onBody, Play.bind_apply, Play.part, hb] at h
  · exact absurd (congrArg Prod.fst h) (by simp)
  · cases answer with
    | running | succeeded =>
      obtain ⟨-, rfl, -⟩ := h
      exact .inl rfl
    | failed =>
      simp only [Play.bind_apply, Play.change, Play.read] at h
      right
      split at h
      · next hover =>
        obtain ⟨rfl, rfl, -⟩ := h
        exact ⟨rfl, (if_pos hover).symm⟩
      · next hover =>
        obtain ⟨rfl, rfl, -⟩ := h
        exact ⟨rfl, (if_neg hover).symm⟩

/-- A frame of a wait counts itself, and settles the wait if it is the last one. -/
theorem Step.frames_tick {count : UInt32} {p q : (Step.frames count).Progress} {dt : Float32}
    {status : Status} (h : (Step.frames count).tick run dt cue (p, w) = (.ok status, q, t)) :
    (Step.frames count).counter q = (Step.frames count).counter p + 1 ∧
      status = if (Step.frames count).counter p + 1 ≥ count then .succeeded else .running := by
  obtain ⟨rfl, rfl, -⟩ := h
  exact ⟨rfl, rfl⟩

theorem Step.retry_tick {attempts : UInt32} {steps : List (Step Command)}
    {p q : (Step.retry attempts steps).Progress} {dt : Float32} {status : Status}
    (h : (Step.retry attempts steps).tick run dt cue (p, w) = (.ok status, q, t)) :
    (Step.retry attempts steps).counter q = (Step.retry attempts steps).counter p ∨
      (Step.retry attempts steps).counter q = (Step.retry attempts steps).counter p + 1 ∧
        status = if (Step.retry attempts steps).counter p + 1 ≥ RetryProgress.budget attempts
          then .failed else .running :=
  RetryProgress.tick_failures h

variable (hn : x.limit? = some n)

include hn

theorem Step.enter_counter (h : x.enter run cue (p, w) = (.ok (), q, t)) : x.counter q = 0 := by
  cases x with
  | frames | retry =>
    obtain ⟨-, rfl, -⟩ := h
    rfl
  | _ => exact absurd hn (by simp [limit?])

theorem Step.exit_counter (h : x.exit run cue (p, w) = (.ok (), q, t)) :
    x.counter q = x.counter p := by
  cases x with
  | frames | retry =>
    obtain ⟨-, rfl, -⟩ := h
    rfl
  | _ => exact absurd hn (by simp [limit?])

/-- Ticked below its bound a counter may come to it, but then the step has settled. -/
theorem Step.tick_counter {dt : Float32} {status : Status}
    (h : x.tick run dt cue (p, w) = (.ok status, q, t))
    (hlt : (x.counter p).toNat < max n.toNat 1) :
    ((x.counter q).toNat = (x.counter p).toNat ∨
        (x.counter q).toNat = (x.counter p).toNat + 1) ∧
      (status = .running → (x.counter q).toNat < max n.toNat 1) := by
  have hsucc := toNat_succ_of_lt hlt
  cases x with
  | frames count =>
    obtain rfl := Option.some.inj hn
    obtain ⟨hnext, hstatus⟩ := Step.frames_tick h
    rw [hnext]
    refine ⟨.inr hsucc, fun hrunning => ?_⟩
    have hunder : ¬ (Step.frames count).counter p + 1 ≥ count := by
      intro hover
      rw [hstatus, if_pos hover] at hrunning
      exact absurd hrunning (by simp)
    rw [ge_iff_le, UInt32.le_iff_toNat_le] at hunder
    omega
  | retry attempts steps =>
    obtain rfl := Option.some.inj hn
    rcases Step.retry_tick h with hkept | ⟨hnext, hstatus⟩
    · rw [hkept]
      exact ⟨.inl rfl, fun _ => hlt⟩
    · rw [hnext]
      refine ⟨.inr hsucc, fun hrunning => ?_⟩
      have hunder : ¬ (Step.retry attempts steps).counter p + 1 ≥
          RetryProgress.budget attempts := by
        intro hover
        rw [hstatus, if_pos hover] at hrunning
        exact absurd hrunning (by simp)
      rw [ge_iff_le, UInt32.le_iff_toNat_le, RetryProgress.toNat_budget] at hunder
      omega
  | _ => exact absurd hn (by simp [limit?])

/-- Along its visits a counter stays within its bound, and below it while the step is under way. -/
theorem Step.Lived.counts {visits : List (Visit x.Progress)} (h : x.Lived visits p)
    (ho : Visit.Orderly visits) (hfree : (Visit.phase visits).IsFree) :
    (x.counter p).toNat ≤ max n.toNat 1 ∧
      (Visit.phase visits = .underway → (x.counter p).toNat < max n.toNat 1) ∧
      ∀ v ∈ visits, x.CountsWithin (max n.toNat 1) v := by
  induction h with
  | built resolve =>
    have hzero : x.counter (x.fresh resolve) = 0 := by
      cases x <;> rfl
    rw [hzero]
    exact ⟨Nat.zero_le _, nofun, nofun⟩
  | @visited visits v hlived hv ih =>
    obtain ⟨hadmits, ho⟩ := ho
    obtain ⟨hbound, hunder, hall⟩ := ih ho hadmits.isFree
    obtain ⟨r, hr, hphase⟩ := Visit.answered hfree
    obtain ⟨call, before, answer, after⟩ := v
    obtain rfl : answer = .ok r := hr
    rw [hphase]
    cases call with
    | enter =>
      obtain ⟨-, _, _, _, _, henter⟩ := hv.entered
      have hzero := Step.enter_counter hn henter
      have hafter : (x.counter after).toNat < max n.toNat 1 := by
        rw [hzero]
        show 0 < max n.toNat 1
        omega
      exact ⟨hafter.le, fun _ => hafter,
        List.forall_mem_cons.mpr ⟨⟨hbound, hafter.le, hzero⟩, hall⟩⟩
    | tick dt =>
      obtain ⟨status, rfl, _, _, _, _, htick⟩ := hv.ticked
      have hlt : (x.counter before).toNat < max n.toNat 1 := hunder hadmits
      obtain ⟨hcounted, hrunning⟩ := Step.tick_counter hn htick hlt
      have hafter : (x.counter after).toNat ≤ max n.toNat 1 := by omega
      refine ⟨hafter, fun hgoes => hrunning ?_,
        List.forall_mem_cons.mpr ⟨⟨hbound, hafter, hcounted⟩, hall⟩⟩
      cases status with
      | running => rfl
      | _ => exact absurd hgoes (by simp [Phase.ended, Status.isTerminal, Status.isRunning])
    | exit =>
      obtain ⟨rfl, _, _, _, _, hexit⟩ := hv.exited
      have hsame := Step.exit_counter hn hexit
      rw [hsame]
      refine ⟨hbound, fun hgoes => absurd hgoes (by simp [Phase.ended, Call.phase]),
        List.forall_mem_cons.mpr ⟨⟨hbound, ?_, hsame⟩, hall⟩⟩
      rw [hsame]
      exact hbound

end

/-! Waits for frames -/

/-- An activation of a wait settles well in its last frame. One that did not settle was given up,
or goes on, before it came to that frame. -/
inductive Activation.Takes (bound : Nat) : Activation → Prop
  | settled {frames : List Float32} (dt : Float32) : frames.length + 1 = bound →
      Takes bound ⟨frames, .settled dt .succeeded rfl⟩
  | pending {frames : List Float32} : frames.length < bound → Takes bound ⟨frames, .pending⟩
  | cut {frames : List Float32} : frames.length < bound → Takes bound ⟨frames, .cut⟩

def Counting (σ : Site) (bound : Nat) (calls : List Entry) (c : UInt32) (φ : Phase) : Prop :=
  ∃ acts : List Activation, (∀ a ∈ acts, a.Takes bound) ∧
    let past := acts.flatMap (Activation.entries σ)
    match φ with
    | .idle => calls = past
    | .underway => ∃ frames, frames.length = c.toNat ∧ c.toNat < bound ∧
      calls = past ++ Activation.entries σ ⟨frames, .pending⟩
    | .settled => ∃ frames dt, frames.length + 1 = bound ∧
      calls = past ++ Activation.entries σ ⟨frames, .pending⟩ ++
        [.called σ (.tick dt), .returned σ (some .succeeded)]
    | _ => False

namespace Counting

variable {σ : Site} {bound : Nat} {calls : List Entry} {c : UInt32} {φ : Phase}

/-- Between calls they are whole activations. -/
theorem whole (h : Counting σ bound calls c φ) (hφ : φ.IsQuiet) :
    ∃ acts : List Activation, calls = acts.flatMap (Activation.entries σ) ∧
      ∀ a ∈ acts, a.Takes bound := by
  obtain ⟨acts, htakes, h⟩ := h
  rcases hφ with rfl | rfl
  · exact ⟨acts, h, htakes⟩
  · obtain ⟨frames, hlength, hlt, h⟩ := h
    refine ⟨acts ++ [⟨frames, .pending⟩], ?_, ?_⟩
    · rw [List.flatMap_append, List.flatMap_singleton]
      exact h
    · intro a ha
      rcases List.mem_append.mp ha with ha | ha
      · exact htakes a ha
      · obtain rfl := List.mem_singleton.mp ha
        exact .pending (by omega)

theorem entered (h : Counting σ bound calls c φ) (hφ : φ.IsQuiet) (hbound : 0 < bound) :
    Counting σ bound (calls ++ [.called σ .enter, .returned σ none]) 0 .underway := by
  obtain ⟨acts, hacts, htakes⟩ := h.whole hφ
  exact ⟨acts, htakes, [], rfl, hbound, by rw [hacts]; rfl⟩

theorem ticked (h : Counting σ bound calls c .underway) (dt : Float32) {status : Status}
    (hnext : (c + 1).toNat = c.toNat + 1)
    (hstatus : status = if c.toNat + 1 = bound then .succeeded else .running) :
    Counting σ bound (calls ++ [.called σ (.tick dt), .returned σ (some status)]) (c + 1)
      (Phase.ended .ticking (some status)) := by
  obtain ⟨acts, htakes, frames, hlength, hlt, hcalls⟩ := h
  refine ⟨acts, htakes, ?_⟩
  rw [hcalls]
  split at hstatus
  · next hlast =>
    rw [hstatus]
    exact ⟨frames, dt, by omega, rfl⟩
  · next hlast =>
    rw [hstatus]
    refine ⟨frames ++ [dt], ?_, by omega, ?_⟩
    · rw [List.length_append, List.length_singleton]
      omega
    · rw [Activation.entries_ticked, List.append_assoc]

theorem exited (h : Counting σ bound calls c φ) (hφ : φ = .settled ∨ φ = .underway) :
    Counting σ bound (calls ++ [.called σ .exit, .returned σ none]) c .idle := by
  obtain ⟨acts, htakes, h⟩ := h
  have hmore : ∀ a : Activation, a.Takes bound → ∀ b ∈ acts ++ [a], b.Takes bound := by
    intro a ha b hb
    rcases List.mem_append.mp hb with hb | hb
    · exact htakes b hb
    · exact List.mem_singleton.mp hb ▸ ha
  rcases hφ with rfl | rfl
  · obtain ⟨frames, dt, hlength, h⟩ := h
    refine ⟨acts ++ [⟨frames, .settled dt .succeeded rfl⟩], hmore _ (.settled dt hlength), ?_⟩
    have hlast := Activation.entries_settled (σ := σ) frames dt .succeeded rfl
    show _ = (acts ++ [_]).flatMap (Activation.entries σ)
    rw [h, List.flatMap_append, List.flatMap_singleton, hlast]
    simp
  · obtain ⟨frames, hlength, hlt, h⟩ := h
    refine ⟨acts ++ [⟨frames, .cut⟩], hmore _ (.cut (by omega)), ?_⟩
    show _ = (acts ++ [_]).flatMap (Activation.entries σ)
    rw [h, List.flatMap_append, List.flatMap_singleton, Activation.entries_cut]
    simp

end Counting

/-- The visits of a wait count its frames. -/
theorem Step.Lived.counting {count : UInt32} {visits : List (Visit (Step.frames count).Progress)}
    {p : (Step.frames count).Progress} (h : (Step.frames count).Lived visits p)
    (ho : Visit.Orderly visits) (hfree : (Visit.phase visits).IsFree) (σ : Site) :
    Counting σ (max count.toNat 1) (visits.flatMap (Visit.entries σ)).reverse
      ((Step.frames count).counter p) (Visit.phase visits) := by
  induction h with
  | built resolve => exact ⟨[], nofun, rfl⟩
  | @visited visits v hlived hv ih =>
    obtain ⟨hadmits, ho⟩ := ho
    have hbefore := ih ho hadmits.isFree
    obtain ⟨-, hunder, -⟩ := hlived.counts rfl ho hadmits.isFree
    obtain ⟨r, hr, hphase⟩ := Visit.answered hfree
    obtain ⟨call, before, answer, after⟩ := v
    obtain rfl : answer = .ok r := hr
    have hcalls :
        (List.flatMap (Visit.entries σ) (⟨call, before, .ok r, after⟩ :: visits)).reverse =
          (visits.flatMap (Visit.entries σ)).reverse ++ [.called σ call, .returned σ r] := by
      simp [Visit.entries]
    rw [hcalls, hphase]
    cases call with
    | enter =>
      obtain ⟨rfl, _, _, _, _, henter⟩ := hv.entered
      have hentered := hbefore.entered hadmits (by omega)
      rw [← Step.enter_counter rfl henter] at hentered
      exact hentered
    | tick dt =>
      obtain ⟨status, rfl, _, _, _, _, htick⟩ := hv.ticked
      obtain ⟨hnext, hstatus⟩ := Step.frames_tick htick
      have hlt : ((Step.frames count).counter before).toNat < max count.toNat 1 := hunder hadmits
      have hsucc := toNat_succ_of_lt hlt
      have hlast : (Step.frames count).counter before + 1 ≥ count ↔
          ((Step.frames count).counter before).toNat + 1 = max count.toNat 1 := by
        rw [ge_iff_le, UInt32.le_iff_toNat_le, hsucc]
        omega
      rw [hadmits] at hbefore
      rw [hnext]
      exact hbefore.ticked dt hsucc (hstatus.trans (if_congr hlast rfl rfl))
    | exit =>
      obtain ⟨rfl, _, _, _, _, hexit⟩ := hv.exited
      have hexited := hbefore.exited hadmits
      rw [← Step.exit_counter rfl hexit] at hexited
      exact hexited

/-- Whatever trees of steps the sequences are built of, however callbacks interrupt them and
whatever time frames take: if nothing panics no wait for frames ever counted, and no retried list
ever failed, more often than its bound says, or once if the bound is zero. A counter is set back
when the step is entered, and each addition to it is one of natural numbers. A wait that was not
given up settles exactly in the frame that comes to its bound. -/
theorem counters_never_overflow {settings : Settings} {host : Host} {s : Stage}
    (h : Session true (.opening settings host) s) {σ : Site} {x : Step Command} {n : UInt32}
    (hx : s.step? σ = some x) (hn : x.limit? = some n) :
    (∃ visits p, s.History σ x visits p) ∧ ∀ visits p, s.History σ x visits p →
      (x.counter p).toNat ≤ max n.toNat 1 ∧
      (∀ v ∈ visits, x.CountsWithin (max n.toNat 1) v) ∧
      (x = .frames n → ∃ acts : List Activation,
        (callsAt σ s.journal).reverse = acts.flatMap (Activation.entries σ) ∧
        ∀ a ∈ acts, a.Takes (max n.toNat 1)) := by
  refine ⟨h.history hx, fun visits p hp => ?_⟩
  obtain ⟨id, hroot⟩ : ∃ id, σ.root = some id := by
    cases hr : σ.root with
    | some id => exact ⟨id, rfl⟩
    | none => exact absurd hx (by simp [s.step?_of_root_none hr])
  obtain ⟨ho, hquiet⟩ := h.orderly hroot hp.calls
  obtain ⟨hbound, -, hall⟩ := hp.lived.counts hn ho (.inl hquiet)
  refine ⟨hbound, hall, ?_⟩
  rintro rfl
  rw [hp.calls]
  exact (hp.lived.counting ho (.inl hquiet) σ).whole hquiet

/-- A wait inside a retried list: a reset gives it up after two frames, then it takes three frames
in each of two passes. -/
theorem counters_never_overflow_retried :
    let a : Outline Command := { name := "a", steps := [.retry 2 [.frames 3, .bare [.failed]]] }
    let l : List Command :=
      [.register a, .start "a", .tick 1 (some 2), .reset "a", .tick 1 (some 8)]
    let σ : Site := .child (.top 0 0) 0
    let x : Step Command := .frames 3
    let s := ((Stage.opening {} {}).run false l).2
    Session true (.opening {} {}) s ∧ s.step? σ = some x ∧ x.limit? = some 3 ∧
      (callsAt σ s.journal).length = 26 ∧
      (∃ visits p, s.History σ x visits p) ∧ ∀ visits p, s.History σ x visits p →
        (x.counter p).toNat ≤ max (3 : UInt32).toNat 1 ∧
        (∀ v ∈ visits, x.CountsWithin (max (3 : UInt32).toNat 1) v) ∧
        (x = .frames 3 → ∃ acts : List Activation,
          (callsAt σ s.journal).reverse = acts.flatMap (Activation.entries σ) ∧
          ∀ a ∈ acts, a.Takes (max (3 : UInt32).toNat 1)) := by
  intro a l σ x s
  have hcalm : (Stage.opening {} {}).calmly l = true := by decide +kernel
  have h : Session true (.opening {} {}) s := hcalm ▸ Session.run false l (.opening {} {})
  have hx : s.step? σ = some x := by
    have hfound : (s.step? σ).map (fun y => (y.label, y.limit?)) =
        some ("wait-frames", some 3) := by decide +kernel
    obtain ⟨y, hy, hfound⟩ := Option.map_eq_some_iff.mp hfound
    obtain ⟨hlabel, hlimit⟩ := Prod.mk.inj hfound
    rw [hy, Step.eq_frames hlimit hlabel]
  have hlength : (callsAt σ s.journal).length = 26 := by decide +kernel
  exact ⟨h, hx, rfl, hlength, counters_never_overflow h hx rfl⟩

end Sequencer
