import Sequencer.Proofs.Passes

/-!
# The budget of a retried list

Every pass of a retried list begins with its first child and ends with a child that fails or after
the last one. The first pass without a failure settles it well, and as many failed passes as there
are attempts settle it badly.
-/

set_option autoImplicit false

namespace Sequencer

namespace RetryProgress

variable {π : Type}

/-- The passes of an activation over a list of `n` children, and the status that they come to. -/
inductive Trials (n limit : Nat) (p : RetryProgress π) : List Beat → Status → Prop
  /-- As many passes failed as there are attempts. -/
  | exhausted {passes : List (List Beat)} : (∀ pass ∈ passes, FailedPass n pass) →
      p.failures.toNat = passes.length → passes.length = limit →
      Trials n limit p passes.flatten .failed
  /-- The last pass came to the end of the list. -/
  | clean {passes : List (List Beat)} {pass : List Beat} : (∀ pass ∈ passes, FailedPass n pass) →
      p.failures.toNat = passes.length → passes.length < limit →
      Pass (· = .succeeded) 0 pass n false → Trials n limit p (passes.flatten ++ pass) .succeeded
  /-- The next pass is about to begin, or has come to a child of the list. -/
  | ongoing {passes : List (List Beat)} {pass : List Beat} : (∀ pass ∈ passes, FailedPass n pass) →
      p.failures.toNat = passes.length → passes.length < limit → p.body.cursor < n →
      Pass (· = .succeeded) 0 pass p.body.cursor p.body.entered →
      Trials n limit p (passes.flatten ++ pass) .running

def givingUp (owner : String) (attempts : UInt32) : Except Halt Status → Stage → Stage
  | .ok .failed, s => s.note (.notice (.gaveUp owner (budget attempts)))
  | _, s => s

theorem givingUp_journal (owner : String) (attempts : UInt32) (r : Except Halt Status) (s : Stage) :
    ∃ n, (givingUp owner attempts r s).journal = n ++ s.journal ∧ ∀ e ∈ n, ∃ m, e = .notice m := by
  rcases r with e | status
  · exact ⟨[], rfl, by simp⟩
  · cases status with
    | running => exact ⟨[], rfl, by simp⟩
    | succeeded => exact ⟨[], rfl, by simp⟩
    | failed => exact ⟨[.notice (.gaveUp owner (budget attempts))], rfl, by simp⟩

section

variable {owner : String} {attempts : UInt32} {n : Nat} {p : RetryProgress π} {s u : Stage}
  {r : Except Halt Status} {c : π}

theorem tick_passed {drive : Nat → Bool → Play π Status} (h : p.body.cursor < n)
    (hdrive : drive p.body.cursor (!p.body.entered) (p.body.children, s) = (r, c, u))
    (hr : settlement r ≠ some .failed) :
    RetryProgress.tick owner attempts (Track.tick n .propagate drive) (p, s) =
      (r.map (p.body.answer n .propagate), { p with body := p.body.driven c r }, u) := by
  simp only [RetryProgress.tick, Play.bind_apply, onBody, Play.part, Track.tick_beat h hdrive]
  cases r with
  | error e => rfl
  | ok status =>
    cases status with
    | running => rfl
    | succeeded =>
      simp only [Except.map, Track.answer, Status.isRunning, Status.isFailure, Bool.false_and]
      by_cases hlast : p.body.cursor + 1 < n <;> simp only [hlast, if_true, if_false] <;> rfl
    | failed => exact absurd rfl hr

theorem tick_failed {drive : Nat → Bool → Play π Status} (h : p.body.cursor < n)
    (hdrive : drive p.body.cursor (!p.body.entered) (p.body.children, s) = (.ok .failed, c, u)) :
    RetryProgress.tick owner attempts (Track.tick n .propagate drive) (p, s) =
      if p.failures + 1 ≥ budget attempts then
        (.ok .failed, { failures := p.failures + 1, body := p.body.driven c (.ok .failed) },
          u.note (.notice (.gaveUp owner (p.failures + 1))))
      else (.ok .running, { failures := p.failures + 1, body := ⟨0, false, c⟩ }, u) := by
  simp only [RetryProgress.tick, Play.bind_apply, onBody, Play.part, Track.tick_beat h hdrive]
  have hanswer : p.body.answer n .propagate .failed = .failed := rfl
  simp only [Except.map, hanswer, Play.change, Play.read, Play.bind_apply]
  split <;> rfl

theorem Trials.begin (p : RetryProgress π) {limit : Nat} (hn : 0 < n) (hlimit : 0 < limit) :
    Trials n limit { p with failures := 0, body := p.body.rewound } [] .running := by
  show Trials n limit _ (List.flatten [] ++ []) .running
  exact .ongoing nofun rfl hlimit hn (.between 0)

theorem Trials.inside {limit : Nat} {bs : List Beat} (h : p.Trials n limit bs .running) :
    p.body.cursor < n := by
  cases h with
  | ongoing _ _ _ hcursor _ => exact hcursor

/-- The beat that ends a pass with a failure: the next pass begins, or there is none left. -/
theorem tick_failing (owner : String) (drive : Nat → Bool → Play π Status) {limit : Nat}
    {passes : List (List Beat)} {pass : List Beat} (hfailed : ∀ pass ∈ passes, FailedPass n pass)
    (hcount : p.failures.toNat = passes.length) (hleft : passes.length < limit)
    (hcursor : p.body.cursor < n)
    (hpass : Pass (· = .succeeded) 0 pass p.body.cursor p.body.entered)
    (hlimit : (budget attempts).toNat = limit)
    (hdrive : drive p.body.cursor (!p.body.entered) (p.body.children, s) = (.ok .failed, c, u)) :
    let x := RetryProgress.tick owner attempts (Track.tick n .propagate drive) (p, s)
    ∃ status, x.1 = .ok status ∧ x.2.2 = givingUp owner attempts x.1 u ∧
      x.2.1.body.children = c ∧ x.2.1.Trials n limit
        (passes.flatten ++ (pass ++ [⟨p.body.cursor, !p.body.entered, .ok .failed⟩])) status := by
  intro x
  have hx : x = RetryProgress.tick owner attempts (Track.tick n .propagate drive) (p, s) := rfl
  let passes' := passes ++ [pass ++ [⟨p.body.cursor, !p.body.entered, .ok .failed⟩]]
  have hbeats : passes.flatten ++ (pass ++ [⟨p.body.cursor, !p.body.entered, .ok .failed⟩]) =
      passes'.flatten := by simp [passes']
  have hfailed : ∀ pass' ∈ passes', FailedPass n pass' := by
    simpa [passes', or_imp, forall_and] using ⟨hfailed, hpass.failed hcursor⟩
  have hlength : passes'.length = passes.length + 1 := List.length_append
  have hcount : (p.failures + 1).toNat = passes'.length := by
    have hbound := (budget attempts).toNat_lt
    rw [UInt32.toNat_add, UInt32.toNat_one, hcount, hlength]
    omega
  rw [tick_failed hcursor hdrive] at hx
  rw [hbeats]
  by_cases hover : p.failures + 1 ≥ budget attempts
  · have hge := UInt32.le_iff_toNat_le.mp hover
    have hspent : p.failures + 1 = budget attempts := UInt32.toNat_inj.mp (by omega)
    rw [hx, if_pos hover, hspent]
    exact ⟨.failed, rfl, rfl, rfl, .exhausted hfailed (hspent ▸ hcount) (by omega)⟩
  · have hlt : ¬ (budget attempts).toNat ≤ (p.failures + 1).toNat :=
      fun h => hover (UInt32.le_iff_toNat_le.mpr h)
    rw [hx, if_neg hover, ← passes'.flatten.append_nil]
    exact ⟨.running, rfl, rfl, rfl,
      .ongoing hfailed hcount (by omega) (by show 0 < n; omega) (.between 0)⟩

/-- One more beat. -/
theorem Trials.tick (owner : String) (drive : Nat → Bool → Play π Status) {limit : Nat}
    {bs : List Beat} (h : p.Trials n limit bs .running)
    (hlimit : (budget attempts).toNat = limit)
    (hdrive : drive p.body.cursor (!p.body.entered) (p.body.children, s) = (r, c, u)) :
    let x := RetryProgress.tick owner attempts (Track.tick n .propagate drive) (p, s)
    ∃ status, x.1 = r.map (fun _ => status) ∧ settlement x.1 = settlement (.ok status) ∧
      x.2.2 = givingUp owner attempts x.1 u ∧ x.2.1.body.children = c ∧
      x.2.1.Trials n limit (bs ++ [⟨p.body.cursor, !p.body.entered, r⟩]) status := by
  intro x
  have hx : x = RetryProgress.tick owner attempts (Track.tick n .propagate drive) (p, s) := rfl
  cases h with
  | @ongoing passes pass hfailed hcount hleft hcursor hpass =>
  rw [List.append_assoc]
  rcases r with e | status
  · rw [tick_passed hcursor hdrive nofun] at hx
    rw [hx]
    exact ⟨.running, rfl, rfl, rfl, rfl,
      .ongoing hfailed hcount hleft hcursor (hpass.unsettled rfl)⟩
  cases status with
  | running =>
    rw [tick_passed hcursor hdrive nofun] at hx
    rw [hx]
    exact ⟨.running, rfl, rfl, rfl, rfl,
      .ongoing hfailed hcount hleft hcursor (hpass.unsettled rfl)⟩
  | succeeded =>
    have hpass := hpass.settled (r := .ok .succeeded) rfl rfl
    rw [tick_passed hcursor hdrive nofun] at hx
    by_cases hlast : p.body.cursor + 1 < n
    · have hanswer : p.body.answer n .propagate .succeeded = .running := if_pos hlast
      rw [hx]
      simp only [Except.map, hanswer]
      exact ⟨.running, rfl, rfl, rfl, rfl, .ongoing hfailed hcount hleft hlast hpass⟩
    · have hanswer : p.body.answer n .propagate .succeeded = .succeeded := if_neg hlast
      have hend : p.body.cursor + 1 = n := by omega
      rw [hend] at hpass
      rw [hx]
      simp only [Except.map, hanswer]
      exact ⟨.succeeded, rfl, rfl, rfl, rfl, .clean hfailed hcount hleft hpass⟩
  | failed =>
    obtain ⟨status, hstatus, hrest⟩ :=
      tick_failing owner drive hfailed hcount hleft hcursor hpass hlimit hdrive
    exact ⟨status, hstatus, congrArg settlement hstatus, hrest⟩

end

end RetryProgress

def RetryProgress.frame (attempts : UInt32) (steps : List (Step Command)) (cue : Cue) (run : Runner)
    (dt : Float32) : Play (RetryProgress (Children steps)) Status :=
  (Step.retry attempts steps).tick run dt cue

namespace RetryProgress

variable {attempts : UInt32} {steps : List (Step Command)} {limit : Nat}

theorem Trials.frame (cue : Cue) {p : RetryProgress (Children steps)} {bs : List Beat}
    (h : p.Trials steps.length limit bs .running) (hlimit : (budget attempts).toNat = limit)
    (o : Occasion) :
    let x := RetryProgress.frame attempts steps cue o.run o.dt (p, o.world)
    ∃ b status, x.1 = b.answer.map (fun _ => status) ∧ settlement x.1 = settlement (.ok status) ∧
      Beats cue steps (givingUp cue.owner attempts) [⟨o, x.1, x.2.2⟩] [b] p.body.children
        x.2.1.body.children ∧
      x.2.1.Trials steps.length limit (bs ++ [b]) status := by
  intro x
  let drive (i : Nat) (fresh : Bool) := driveNth o.run o.dt steps (cue.child i) i i fresh
  rcases hdrive : drive p.body.cursor (!p.body.entered) (p.body.children, o.world) with ⟨r, c, u⟩
  obtain ⟨status, hanswer, hsettled, hafter, hchildren, htrials⟩ :=
    h.tick cue.owner drive hlimit hdrive
  exact ⟨⟨p.body.cursor, !p.body.entered, r⟩, status, hanswer, hsettled,
    .cons h.inside hdrive hafter (hchildren ▸ .nil _), htrials⟩

/-- As long as no frame settles, the passes go on. -/
theorem Trials.frames (cue : Cue) (hlimit : (budget attempts).toNat = limit) :
    (os : List Occasion) → {p : RetryProgress (Children steps)} → {bs : List Beat} →
    p.Trials steps.length limit bs .running →
    let a := Play.frames (RetryProgress.frame attempts steps cue) os p
    (∀ f ∈ a.1, f.Unsettled) →
    ∃ ds, Beats cue steps (givingUp cue.owner attempts) a.1 ds p.body.children a.2.body.children ∧
      a.2.Trials steps.length limit (bs ++ ds) .running
  | [], p, bs, h, _ => ⟨[], .nil _, bs.append_nil.symm ▸ h⟩
  | o :: rest, p, bs, h, hunsettled => by
    obtain ⟨b, status, -, hsettled, hbeat, htrials⟩ := h.frame cue hlimit o
    obtain ⟨hfirst, hlater⟩ := List.forall_mem_cons.mp hunsettled
    have hrunning : status = .running := by
      have hnone : settlement (.ok status) = none := hsettled.symm.trans hfirst
      cases status with
      | running => rfl
      | succeeded => cases hnone
      | failed => cases hnone
    subst hrunning
    obtain ⟨ds, hbeats, hend⟩ := Trials.frames cue hlimit rest htrials hlater
    refine ⟨b :: ds, hbeat.append hbeats, ?_⟩
    rw [List.append_cons]
    exact hend

theorem frames_nil (attempts : UInt32) (cue : Cue) (os : List Occasion)
    (p : RetryProgress (Children [])) :
    let a := Play.frames (RetryProgress.frame attempts [] cue) os p
    a.2 = p ∧ ∀ f ∈ a.1, f.answer = .ok .succeeded ∧ f.after = f.world := by
  have hframe : ∀ o : Occasion, RetryProgress.frame attempts [] cue o.run o.dt (p, o.world) =
      (.ok .succeeded, p, o.world) := by
    intro o
    simp only [RetryProgress.frame, Step.tick, RetryProgress.tick, onBody, Play.bind_apply,
      Play.part, Track.tick_past (Nat.zero_le _), List.length_nil]
    rfl
  induction os with
  | nil => exact ⟨rfl, fun f hf => absurd hf List.not_mem_nil⟩
  | cons o rest ih =>
    simp only [Play.frames, hframe, List.forall_mem_cons]
    exact ⟨ih.1, ⟨trivial, trivial⟩, ih.2⟩

end RetryProgress

/-- What the frames of an activation come to, up to one in which the list settles. -/
structure RetryProgress.Spent (attempts : UInt32) (steps : List (Step Command)) (cue : Cue)
    (children : Children steps) (a : List Frame × RetryProgress (Children steps)) : Prop where
  /-- Without children there is nothing to fail. -/
  empty : steps = [] → a.2.failures = 0 ∧ ∀ f ∈ a.1, f.answer = .ok .succeeded ∧ f.after = f.world
  /-- Each frame drives one child, as the journal tells, the beats make passes, and the status is
  that of the passes. -/
  passes : steps ≠ [] → ∃ beats status,
    Beats cue steps (givingUp cue.owner attempts) a.1 beats children a.2.body.children ∧
    ((∀ f ∈ a.1, f.run.Follows) → List.Forall₂ (Beat.Told cue.site) a.1 beats) ∧
    a.2.Trials steps.length (max attempts.toNat 1) beats status ∧
    ∀ f ∈ a.1.getLast?, ∀ b ∈ beats.getLast?, f.answer = b.answer.map fun _ => status

/-- A retried list makes pass after pass over its children until one of them succeeds or all its
attempts are spent, whatever became of it before it was entered. -/
theorem retry_passes (attempts : UInt32) (steps : List (Step Command)) (cue : Cue) (run : Runner)
    (p : RetryProgress (Children steps)) (s : Stage) (os : List Occasion) :
    let r := (Step.retry attempts steps).enter run cue (p, s)
    let a := Play.frames (RetryProgress.frame attempts steps cue) os r.2.1
    (∀ f ∈ a.1.dropLast, f.Unsettled) →
    r.1 = .ok () ∧ r.2.2 = s ∧ RetryProgress.Spent attempts steps cue p.body.children a := by
  intro r a hunsettled
  refine ⟨rfl, rfl, ?_, ?_⟩
  · rintro rfl
    obtain ⟨hend, hframes⟩ := RetryProgress.frames_nil attempts cue os r.2.1
    exact ⟨congrArg RetryProgress.failures hend, hframes⟩
  · intro hsteps
    have hbegin : r.2.1.Trials steps.length (max attempts.toNat 1) [] .running :=
      .begin p (List.length_pos_iff.mpr hsteps) (by omega)
    have hlimit := RetryProgress.toNat_budget attempts
    rcases os.eq_nil_or_concat' with rfl | ⟨os, o, rfl⟩
    · exact ⟨[], .running, .nil _, fun _ => .nil, hbegin,
        fun f hf => absurd hf (Option.not_mem_none f)⟩
    · have ha : a = _ := Play.frames_append (RetryProgress.frame attempts steps cue) os o r.2.1
      rw [ha, List.dropLast_concat] at hunsettled
      obtain ⟨beats, hbeats, htrials⟩ := hbegin.frames cue hlimit os hunsettled
      obtain ⟨b, status, hanswer, -, hbeat, hlast⟩ := htrials.frame cue hlimit o
      rw [ha]
      have hall := hbeats.append hbeat
      refine ⟨beats ++ [b], status, hall, hall.told (RetryProgress.givingUp_journal _ _), hlast, ?_⟩
      simp only [List.getLast?_concat, Option.mem_some_iff]
      rintro _ rfl _ rfl
      exact hanswer

/-- Entered again in the middle of an activation whose first attempts are lost, with two attempts:
the second child fails in its second frame, and the second pass comes to the end. -/
theorem retry_passes_second_attempt :
    let steps : List (Step Command) :=
      [.probe "p" [.succeeded], .probe "q" [.running, .failed, .succeeded]]
    let cue : Cue := ⟨"a", .held "h"⟩
    let p : RetryProgress (Children steps) :=
      { failures := 2, body := ⟨1, true, freshChildren (⟨·, 0⟩) steps⟩ }
    let r := (Step.retry 2 steps).enter (perform 1) cue (p, {})
    let a := Play.frames (RetryProgress.frame 2 steps cue)
      (List.replicate 5 ⟨perform 1, 1, {}⟩) r.2.1
    (∀ f ∈ a.1.dropLast, f.Unsettled) ∧ a.1.length = 5 ∧ a.2.failures = 1 ∧
    RetryProgress.Spent 2 steps cue p.body.children a := by
  intro steps cue p r a
  have hunsettled : ∀ f ∈ a.1.dropLast, f.Unsettled := by decide +kernel
  have hframes : a.1.length = 5 ∧ a.2.failures = 1 := by decide +kernel
  obtain ⟨-, -, hspent⟩ := retry_passes 2 steps cue (perform 1) p {}
    (List.replicate 5 ⟨perform 1, 1, {}⟩) hunsettled
  exact ⟨hunsettled, hframes.1, hframes.2, hspent⟩

end Sequencer
