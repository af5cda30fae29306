import Sequencer.Proofs.Passes.Bounded

/-!
# Waiting for an answer

A wait asks its question once in every frame. It is over in the first frame in which the answer is
yes, or in which the time since it was entered comes to the limit; a yes counts for more. Frames in
which the question panics take no time. A wait for a question that is always answered with a no is
over when a plain wait for the limit is.
-/

set_option autoImplicit false

namespace Sequencer

theorem forall_prefix_concat {α : Type} {P : List α → α → Prop} {l : List α} {a : α} :
    (∀ as b, as ++ [b] <+: l ++ [a] → P as b) ↔ (∀ as b, as ++ [b] <+: l → P as b) ∧ P l a := by
  constructor
  · intro h
    exact ⟨fun as b has => h as b (has.trans (List.prefix_append _ _)), h l a (List.prefix_refl _)⟩
  · rintro ⟨hbefore, hlast⟩ as b has
    rcases List.prefix_concat_iff.mp has with heq | has
    · obtain ⟨rfl, hb⟩ := List.append_inj' heq rfl
      obtain rfl : b = a := List.singleton_inj.mp hb
      exact hlast
    · exact hbefore as b has

namespace AwaitProgress

def frame (question : Question Command) (limit : Option Float32) (policy : Expiry) (cue : Cue)
    (run : Runner) (dt : Float32) : Play AwaitProgress Status :=
  (Step.await question limit policy).tick run dt cue

/-- What the question is answered in frame number `i`, if it was asked so many times before the
first one. The code behind it is carried out first, and may halt. -/
def asked (question : Question Command) (cue : Cue) (polls i : Nat) (o : Occasion) :
    Except Halt Bool :=
  (inquire o.run (.step cue.site) cue.owner (polls + i + 1) question o.world).1

def noes (question : Question Command) (cue : Cue) (polls : Nat) (os : List Occasion) :
    List Occasion :=
  (os.zipIdx.filter fun x => asked question cue polls x.2 x.1 = .ok false).map (·.1)

def verdict (limit : Option Float32) (policy : Expiry) (time : Float32) :
    Except Halt Bool → Except Halt Status
  | .error e => .error e
  | .ok true => .ok .succeeded
  | .ok false =>
    match limit with
    | some bound => .ok (if time ≥ bound then policy.outcome else .running)
    | none => .ok .running

theorem verdict_running {limit : Option Float32} {policy : Expiry} {time : Float32}
    {answer : Except Halt Bool} :
    verdict limit policy time answer = .ok .running ↔
      answer = .ok false ∧ ∀ bound ∈ limit, ¬ time ≥ bound := by
  rcases answer with e | (_ | _)
  · simp [verdict]
  · cases limit with
    | none => simp [verdict]
    | some bound =>
      have houtcome : policy.outcome ≠ .running := by cases policy <;> nofun
      by_cases h : time ≥ bound <;> simp [verdict, h, houtcome]
  · simp [verdict]

/-- A wait is not over unless its question is answered. -/
theorem settlement_verdict {limit : Option Float32} {policy : Expiry} {time : Float32}
    {answer : Except Halt Bool} : settlement (verdict limit policy time answer) = none ↔
      answer ≠ .ok true ∧ (answer = .ok false → ∀ bound ∈ limit, ¬ time ≥ bound) := by
  have hrunning : Status.running.isTerminal = false := rfl
  have hsucceeded : Status.succeeded.isTerminal = true := rfl
  rcases answer with e | (_ | _)
  · simp [verdict, settlement]
  · cases limit with
    | none => simp [verdict, settlement, hrunning]
    | some bound =>
      by_cases h : time ≥ bound <;>
        simp [verdict, settlement, h, policy.outcome_isTerminal, hrunning]
  · simp [verdict, settlement, hsucceeded]

def Polled (question : Question Command) (cue : Cue) (run : Runner) (s t : Stage) :
    Except Halt Bool → Prop
  | .error _ => t = (performAll run question.code s).2
  | .ok answer => ∃ u, performAll run question.code s = (.ok (), u) ∧
    let v := u.note (.polled (.step cue.site) question.id answer)
    (t = v ∨ ∃ n, t = v.note (.notice n))

section

variable (question : Question Command) (limit : Option Float32) (policy : Expiry) (cue : Cue)

theorem noes_concat (polls : Nat) (os : List Occasion) (o : Occasion) :
    noes question cue polls (os ++ [o]) =
      if asked question cue polls os.length o = .ok false then noes question cue polls os ++ [o]
      else noes question cue polls os := by
  simp only [noes, List.zipIdx_append, List.filter_append, List.map_append, Nat.zero_add,
    List.zipIdx_singleton]
  split
  · next h => simp [h]
  · next h => simp [h]

theorem noes_of_all {polls : Nat} {os : List Occasion}
    (h : ∀ as o, as ++ [o] <+: os → asked question cue polls as.length o = .ok false) :
    noes question cue polls os = os := by
  induction os using List.reverseRecOn with
  | nil => rfl
  | append_singleton os o ih =>
    obtain ⟨hbefore, hlast⟩ := forall_prefix_concat.mp h
    rw [noes_concat, if_pos hlast, ih hbefore]

/-- Only an answer that is no takes time. -/
theorem frame_apply (run : Runner) (dt : Float32) (p : AwaitProgress) (s : Stage) :
    let answer := (inquire run (.step cue.site) cue.owner (p.polls + 1) question s).1
    let r := frame question limit policy cue run dt (p, s)
    r.1 = verdict limit policy (p.elapsed + dt) answer ∧
    r.2.1 = ⟨p.polls + 1, if answer = .ok false then p.elapsed + dt else p.elapsed⟩ ∧
    Polled question cue run s r.2.2 answer := by
  intro answer r
  have hr : r = Simple.await run cue question limit policy dt (p, s) := rfl
  simp only [Simple.await, Play.bind_apply, Play.change, Play.read, Play.onStage,
    inquire_apply] at hr
  simp only [answer, inquire_apply]
  rcases hcode : performAll run question.code s with ⟨e | _, u⟩ <;> simp only [hcode] at hr
  · rw [hr]
    exact ⟨rfl, rfl, (congrArg Prod.snd hcode).symm⟩
  simp only [ask_apply] at hr ⊢
  rcases hanswer : question.test.eval u cue.owner (p.polls + 1) with e | (_ | _) <;>
    simp only [hanswer] at hr
  · rw [hr]
    exact ⟨rfl, rfl, (congrArg Prod.snd hcode).symm⟩
  · cases limit with
    | none =>
      rw [hr]
      exact ⟨rfl, rfl, u, hcode, .inl rfl⟩
    | some bound =>
      have hr : r = (if p.elapsed + dt ≥ bound then
          (Play.say (.waitTimedOut cue.owner bound) >>= fun _ => pure policy.outcome)
          else pure .running)
          (({ polls := p.polls + 1, elapsed := p.elapsed + dt } : AwaitProgress),
            u.note (.polled (.step cue.site) question.id false)) := hr
      by_cases hbound : p.elapsed + dt ≥ bound
      · rw [if_pos hbound] at hr
        rw [hr, verdict, if_pos hbound]
        exact ⟨rfl, rfl, u, hcode, .inr ⟨_, rfl⟩⟩
      · rw [if_neg hbound] at hr
        rw [hr, verdict, if_neg hbound]
        exact ⟨rfl, rfl, u, hcode, .inl rfl⟩
  · rw [hr]
    exact ⟨rfl, rfl, u, hcode, .inl rfl⟩

/-- How often the question was asked, and how much time has passed: frames in which it was not
answered take none. -/
theorem frames_progress (os : List Occasion) (p : AwaitProgress) (hp : p.elapsed = 0) :
    (Play.frames (frame question limit policy cue) os p).2 =
      ⟨p.polls + os.length, timeTaken (noes question cue p.polls os)⟩ := by
  induction os using List.reverseRecOn with
  | nil => exact congrArg (AwaitProgress.mk p.polls) hp
  | append_singleton os o ih =>
    obtain ⟨-, hprogress, -⟩ := frame_apply question limit policy cue o.run o.dt
      (Play.frames (frame question limit policy cue) os p).2 o.world
    simp only [Play.frames_append]
    rw [hprogress, ih, noes_concat, List.length_append, List.length_singleton, asked]
    split
    · rw [timeTaken_concat, Nat.add_assoc]
    · rw [Nat.add_assoc]

end

def GoesOn (question : Question Command) (limit : Option Float32) (cue : Cue) (polls : Nat)
    (os : List Occasion) (o : Occasion) : Prop :=
  asked question cue polls os.length o = .ok false ∧
    ∀ bound ∈ limit, ¬ timeTaken (os ++ [o]) ≥ bound

def Undecided (question : Question Command) (limit : Option Float32) (cue : Cue) (polls : Nat)
    (os : List Occasion) (o : Occasion) : Prop :=
  asked question cue polls os.length o ≠ .ok true ∧
    (asked question cue polls os.length o = .ok false →
      ∀ bound ∈ limit, ¬ timeTaken (noes question cue polls (os ++ [o])) ≥ bound)

/-- What the frames of a wait come to, and the frame after them, if the question was asked so many
times before. What panics settles nothing and takes no time. -/
structure Awaited (question : Question Command) (limit : Option Float32) (policy : Expiry)
    (cue : Cue) (before : Nat) (os : List Occasion) (x : List Frame × AwaitProgress) : Prop where
  polls : x.2.polls = before + os.length
  running : (∀ f ∈ x.1, f.answer = .ok .running) ↔
    ∀ as o, as ++ [o] <+: os → GoesOn question limit cue before as o
  polled : ∀ o, Polled question cue o.run o.world
    (frame question limit policy cue o.run o.dt (x.2, o.world)).2.2
    (asked question cue before os.length o)
  next : ∀ o, (∀ f ∈ x.1, f.answer = .ok .running) →
    (frame question limit policy cue o.run o.dt (x.2, o.world)).1 =
      verdict limit policy (timeTaken (os ++ [o])) (asked question cue before os.length o)
  unsettled : (∀ f ∈ x.1, f.Unsettled) ↔
    ∀ as o, as ++ [o] <+: os → Undecided question limit cue before as o
  later : ∀ o, (frame question limit policy cue o.run o.dt (x.2, o.world)).1 =
    verdict limit policy (timeTaken (noes question cue before os) + o.dt)
      (asked question cue before os.length o)

section

variable (question : Question Command) (limit : Option Float32) (policy : Expiry) (cue : Cue)

/-- The next frame, whatever the frames before it came to. -/
theorem frame_verdict (os : List Occasion) (p : AwaitProgress) (hp : p.elapsed = 0)
    (o : Occasion) :
    let x := Play.frames (frame question limit policy cue) os p
    (frame question limit policy cue o.run o.dt (x.2, o.world)).1 =
      verdict limit policy (timeTaken (noes question cue p.polls os) + o.dt)
        (asked question cue p.polls os.length o) := by
  intro x
  obtain ⟨hanswer, -, -⟩ := frame_apply question limit policy cue o.run o.dt x.2 o.world
  rw [hanswer, frames_progress question limit policy cue os p hp]
  rfl

/-- The next frame, as long as the wait goes on. -/
theorem frame_verdict_running (os : List Occasion) (p : AwaitProgress) (hp : p.elapsed = 0)
    (h : ∀ as o, as ++ [o] <+: os → GoesOn question limit cue p.polls as o) (o : Occasion) :
    let x := Play.frames (frame question limit policy cue) os p
    (frame question limit policy cue o.run o.dt (x.2, o.world)).1 =
      verdict limit policy (timeTaken (os ++ [o])) (asked question cue p.polls os.length o) := by
  intro x
  have hlater := frame_verdict question limit policy cue os p hp o
  rw [noes_of_all question cue fun as o has => (h as o has).1, ← timeTaken_concat] at hlater
  exact hlater

theorem frames_running (os : List Occasion) (p : AwaitProgress) (hp : p.elapsed = 0) :
    (∀ f ∈ (Play.frames (frame question limit policy cue) os p).1, f.answer = .ok .running) ↔
      ∀ as o, as ++ [o] <+: os → GoesOn question limit cue p.polls as o := by
  induction os using List.reverseRecOn with
  | nil =>
    exact ⟨fun _ as o h => absurd (List.prefix_nil.mp h) (by simp), fun _ => List.forall_mem_nil _⟩
  | append_singleton os o ih =>
    simp only [Play.frames_append, List.forall_mem_append, List.forall_mem_singleton]
    rw [forall_prefix_concat, ih]
    refine and_congr_right fun hbefore => ?_
    rw [frame_verdict_running question limit policy cue os p hp hbefore o]
    exact verdict_running

theorem frames_unsettled (os : List Occasion) (p : AwaitProgress) (hp : p.elapsed = 0) :
    (∀ f ∈ (Play.frames (frame question limit policy cue) os p).1, f.Unsettled) ↔
      ∀ as o, as ++ [o] <+: os → Undecided question limit cue p.polls as o := by
  induction os using List.reverseRecOn with
  | nil =>
    exact ⟨fun _ as o h => absurd (List.prefix_nil.mp h) (by simp), fun _ => List.forall_mem_nil _⟩
  | append_singleton os o ih =>
    simp only [Play.frames_append, List.forall_mem_append, List.forall_mem_singleton]
    rw [forall_prefix_concat, ih]
    refine and_congr_right fun _ => ?_
    rw [Frame.Unsettled, frame_verdict question limit policy cue os p hp o, settlement_verdict]
    refine and_congr_right fun _ => forall_congr' fun hno => ?_
    rw [noes_concat, if_pos hno, timeTaken_concat]

theorem frames_awaited (os : List Occasion) (p : AwaitProgress) (hp : p.elapsed = 0) :
    Awaited question limit policy cue p.polls os
      (Play.frames (frame question limit policy cue) os p) where
  polls := congrArg AwaitProgress.polls (frames_progress question limit policy cue os p hp)
  running := frames_running question limit policy cue os p hp
  polled o := by
    obtain ⟨-, -, hpolled⟩ := frame_apply question limit policy cue o.run o.dt
      (Play.frames (frame question limit policy cue) os p).2 o.world
    rw [frames_progress question limit policy cue os p hp] at hpolled ⊢
    exact hpolled
  next o h := frame_verdict_running question limit policy cue os p hp
    ((frames_running question limit policy cue os p hp).mp h) o
  unsettled := frames_unsettled question limit policy cue os p hp
  later := frame_verdict question limit policy cue os p hp

end

end AwaitProgress

def Simple.waitFrame (seconds : Float32) (cue : Cue) (run : Runner) (dt : Float32) :
    Play Float32 Status := (Step.wait seconds).tick run dt cue

theorem Simple.waitFrame_apply (seconds : Float32) (cue : Cue) (run : Runner) (dt elapsed : Float32)
    (s : Stage) : waitFrame seconds cue run dt (elapsed, s) =
      (.ok (if elapsed + dt ≥ seconds then .succeeded else .running), elapsed + dt, s) := rfl

/-- If the answer is always no, a wait is over when a plain wait for its limit is, and answers as its
policy says. -/
theorem AwaitProgress.frames_wait (question : Question Command) (seconds : Float32) (policy : Expiry)
    (cue cue' : Cue) (os os' : List Occasion) (p : AwaitProgress) (hp : p.elapsed = 0)
    (hdt : os'.map (·.dt) = os.map (·.dt))
    (hno : ∀ as o, as ++ [o] <+: os → asked question cue p.polls as.length o = .ok false) :
    let x := Play.frames (frame question (some seconds) policy cue) os p
    let y := Play.frames (Simple.waitFrame seconds cue') os' 0
    x.1.map (·.answer) = y.1.map (·.answer.map fun status =>
      if status.isTerminal then policy.outcome else .running) ∧ x.2.elapsed = y.2 := by
  induction os using List.reverseRecOn generalizing os' with
  | nil =>
    cases List.map_eq_nil_iff.mp hdt
    exact ⟨rfl, hp⟩
  | append_singleton os o ih =>
    rw [List.map_append, List.map_singleton] at hdt
    obtain ⟨ds, last, rfl, hds, hlast⟩ := List.map_eq_append_iff.mp hdt
    obtain ⟨d, rfl, hd⟩ := List.map_eq_singleton_iff.mp hlast
    obtain ⟨hbefore, hasked⟩ := forall_prefix_concat.mp hno
    obtain ⟨hanswers, helapsed⟩ := ih ds hds hbefore
    have hpolls := congrArg AwaitProgress.polls
      (frames_progress question (some seconds) policy cue os p hp)
    obtain ⟨hanswer, hprogress, -⟩ := frame_apply question (some seconds) policy cue o.run o.dt
      (Play.frames (frame question (some seconds) policy cue) os p).2 o.world
    rw [hpolls] at hanswer hprogress
    rw [asked] at hasked
    rw [hasked] at hanswer hprogress
    simp only [Play.frames_append, List.map_append, List.map_singleton, hanswers, hanswer,
      hprogress, helapsed, Simple.waitFrame_apply, hd, if_true, and_true, verdict]
    refine congrArg (_ ++ [·]) ?_
    split <;> rfl

/-- A wait for an answer asks once in every frame, goes on as long as the answer is no and the time
that the frames have taken is below the limit, and is over in the first frame in which it is not
so. A frame in which the question panics does not settle the wait, and does not count for its time.
If the answer is always no the wait is over when a plain wait is. -/
theorem await_settles (question : Question Command) (limit : Option Float32) (policy : Expiry)
    (cue : Cue) (run : Runner) (p : AwaitProgress) (s : Stage) (os : List Occasion) :
    let r := (Step.await question limit policy).enter run cue (p, s)
    let x := Play.frames (AwaitProgress.frame question limit policy cue) os r.2.1
    r.1 = .ok () ∧ r.2.2 = s ∧
    AwaitProgress.Awaited question limit policy cue p.polls os x ∧
    ∀ (seconds : Float32) (run' : Runner) (cue' : Cue) (elapsed : Float32) (s' : Stage)
      (os' : List Occasion),
      let r' := (Step.wait seconds).enter run' cue' (elapsed, s')
      let y := Play.frames (Simple.waitFrame seconds cue') os' r'.2.1
      limit = some seconds → os'.map (·.dt) = os.map (·.dt) →
      (∀ as o, as ++ [o] <+: os →
        AwaitProgress.asked question cue p.polls as.length o = .ok false) →
      x.1.map (·.answer) = y.1.map (·.answer.map fun status =>
        if status.isTerminal then policy.outcome else .running) := by
  intro r x
  refine ⟨rfl, rfl, AwaitProgress.frames_awaited question limit policy cue os r.2.1 rfl, ?_⟩
  rintro seconds run' cue' elapsed s' os' r' y rfl hdt hno
  exact (AwaitProgress.frames_wait question seconds policy cue cue' os os' r.2.1 rfl hdt hno).1

/-- The third frame takes the time to the limit, and in it the answer is yes for the first time: the
yes counts. If the answer is always no the time is up in that frame. -/
theorem await_settles_third_frame :
    let third : Question Command := { test := .pollsAtLeast 5 }
    let never : Question Command := { test := .const false }
    let cue : Cue := ⟨"a", .held "h"⟩
    let p : AwaitProgress := ⟨2, 7⟩
    let o : Occasion := ⟨perform 1, 1, {}⟩
    let r := (Step.await third (some 2.5) .fail).enter (perform 1) cue (p, {})
    let x := Play.frames (AwaitProgress.frame third (some 2.5) .fail cue) [o, o] r.2.1
    let r' := (Step.await never (some 2.5) .fail).enter (perform 1) cue (p, {})
    let x' := Play.frames (AwaitProgress.frame never (some 2.5) .fail cue) [o, o, o] r'.2.1
    let y := Play.frames (Simple.waitFrame 2.5 cue) [o, o, o] 0
    (AwaitProgress.frame third (some 2.5) .fail cue (perform 1) 1 (x.2, {})).1 = .ok .succeeded ∧
    y.1.map (·.answer) = [.ok .running, .ok .running, .ok .succeeded] ∧
    x'.1.map (·.answer) = [.ok .running, .ok .running, .ok .failed] := by
  intro third never cue p o r x r' x' y
  refine ⟨?_, by decide +kernel, ?_⟩
  · obtain ⟨-, -, hawaited, -⟩ :=
      await_settles third (some 2.5) .fail cue (perform 1) p {} [o, o]
    have hrunning : ∀ f ∈ x.1, f.answer = .ok .running := by decide +kernel
    exact (hawaited.next o hrunning).trans (by decide +kernel)
  · obtain ⟨-, -, -, hwait⟩ :=
      await_settles never (some 2.5) .fail cue (perform 1) p {} [o, o, o]
    have hanswers := hwait 2.5 (perform 1) cue 0 {} [o, o, o] rfl rfl fun _ _ _ => rfl
    exact hanswers.trans (by decide +kernel)

end Sequencer
