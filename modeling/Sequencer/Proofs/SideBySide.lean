import Sequencer.Proofs.Passes

/-!
# Children side by side

The children of a parallel step as a row of branches that is called from its first to its last,
and what each branch is asked in such a round. Entering a parallel step is one round over its
branches, and each of its frames is another one.
-/

set_option autoImplicit false

namespace Sequencer

namespace Play

variable {π σ α β : Type} {x : Play π α} {p p' : π} {q : σ} {s t : Stage}

theorem first_halts {e : Halt} (k : α → Play (π × σ) β) (h : x (p, s) = (.error e, p', t)) :
    (first x >>= k) ((p, q), s) = (.error e, (p', q), t) := by
  rw [bind_apply, first, part, h]

theorem first_goes_on {a : α} (k : α → Play (π × σ) β) (h : x (p, s) = (.ok a, p', t)) :
    (first x >>= k) ((p, q), s) = k a ((p', q), t) := by
  rw [bind_apply, first, part, h]

end Play

/-- A child of a parallel step, with the status that it has settled with. -/
structure Branch extends Part where
  settled : Option Status

def branches : (l : List (Step Command)) → Lanes l → List Branch
  | [], _ => []
  | s :: rest, a => ⟨⟨s, a.1.child⟩, a.1.settled⟩ :: branches rest a.2

theorem branches_steps : (l : List (Step Command)) → (a : Lanes l) →
    (branches l a).map (·.step) = l
  | [], _ => rfl
  | s :: rest, a => congrArg (s :: ·) (branches_steps rest a.2)

inductive Service where
  /-- It has settled before, and is not called. -/
  | passed
  | entered (r : Except Halt Unit)
  /-- It is ticked, and does not settle. -/
  | ticked (r : Except Halt Status)
  /-- It is ticked and settles, and then it is exited. -/
  | exited (status : Status) (r : Except Halt Unit)

namespace Service

def calls (dt : Float32) : Service → List Call
  | .passed => []
  | .entered _ => [.enter]
  | .ticked _ => [.tick dt]
  | .exited _ _ => [.tick dt, .exit]

def result : Service → Except Halt (Option Status)
  | .passed => .ok none
  | .entered r => r.map fun _ => none
  | .ticked r => r.map fun _ => none
  | .exited status r => r.map fun _ => some status

end Service

namespace Branch

def enter (run : Runner) (cue : Cue) (b : Branch) (s : Stage) : Service × Branch × Stage :=
  let r := cue.enter (b.step.enter run cue) (b.progress, s)
  (.entered r.1, ⟨⟨b.step, r.2.1⟩, none⟩, r.2.2)

def tick (run : Runner) (dt : Float32) (cue : Cue) (b : Branch) (s : Stage) :
    Service × Branch × Stage :=
  if b.settled.isSome then (.passed, b, s)
  else
    match cue.tick dt (b.step.tick run dt cue) (b.progress, s) with
    | (.error e, p, t) => (.ticked (.error e), ⟨⟨b.step, p⟩, b.settled⟩, t)
    | (.ok status, p, t) =>
      if status.isRunning then (.ticked (.ok status), ⟨⟨b.step, p⟩, b.settled⟩, t)
      else
        match cue.exit (b.step.exit run cue) (p, t) with
        | (.error e, q, u) => (.exited status (.error e), ⟨⟨b.step, q⟩, b.settled⟩, u)
        | (.ok _, q, u) => (.exited status (.ok ()), ⟨⟨b.step, q⟩, some status⟩, u)

end Branch

def round (call : Cue → Branch → Stage → Service × Branch × Stage) (cue : Cue) :
    Nat → List Branch → Stage → List Service × List Branch × Stage
  | _, [], s => ([], [], s)
  | index, b :: rest, s =>
    let x := call (cue.child index) b s
    match x.1.result with
    | .error _ => ([x.1], x.2.1 :: rest, x.2.2)
    | .ok _ =>
      let later := round call cue (index + 1) rest x.2.2
      (x.1 :: later.1, x.2.1 :: later.2.1, later.2.2)

def results : List Service → Except Halt (List (Option Status))
  | [] => .ok []
  | v :: rest =>
    match v.result with
    | .error e => .error e
    | .ok status => (results rest).map (status :: ·)

section

variable {call : Cue → Branch → Stage → Service × Branch × Stage} {cue : Cue} {index : Nat}
  {b c : Branch} {rest : List Branch} {s t : Stage} {v : Service}

theorem round_halts {e : Halt} (h : call (cue.child index) b s = (v, c, t))
    (hv : v.result = .error e) : round call cue index (b :: rest) s = ([v], c :: rest, t) := by
  simp only [round, h, hv]

theorem round_goes_on (rest : List Branch) {status : Option Status}
    (h : call (cue.child index) b s = (v, c, t)) (hv : v.result = .ok status) :
    round call cue index (b :: rest) s =
      let later := round call cue (index + 1) rest t
      (v :: later.1, c :: later.2.1, later.2.2) := by
  simp only [round, h, hv]

/-- A round over branches whose calls come to the same on every stage of which enough is known, and
tell what is known of the stage that they leave. -/
theorem round_fold {γ δ : Type} {call : Cue → Branch → Stage → Service × Branch × Stage}
    {before after : γ → Branch} {v : γ → Service} (known : δ → Stage → Prop) (next : δ → γ → δ)
    {l : List γ}
    (hcall : ∀ m ∈ l, ∀ cue d s, known d s →
      ∃ t, call cue (before m) s = (v m, after m, t) ∧ known (next d m) t)
    (hok : ∀ m ∈ l, ∃ status, (v m).result = .ok status) (cue : Cue) (index : Nat) {d : δ}
    {s : Stage} (hs : known d s) :
    ∃ t, round call cue index (l.map before) s = (l.map v, l.map after, t) ∧
      known (l.foldl next d) t := by
  induction l generalizing index d s with
  | nil => exact ⟨s, rfl, hs⟩
  | cons m rest ih =>
    obtain ⟨hfirst, hrest⟩ := List.forall_mem_cons.mp hcall
    obtain ⟨⟨status, hstatus⟩, hokRest⟩ := List.forall_mem_cons.mp hok
    obtain ⟨t, hm, ht⟩ := hfirst (cue.child index) d s hs
    obtain ⟨u, hlater, hu⟩ := ih hrest hokRest (index + 1) ht
    refine ⟨u, ?_, hu⟩
    rw [List.map_cons, round_goes_on _ hm hstatus, hlater]
    rfl

theorem results_eq {vs : List Service} {statuses : List (Option Status)}
    (h : vs.map (·.result) = statuses.map .ok) : results vs = .ok statuses := by
  induction vs generalizing statuses with
  | nil =>
    cases List.map_eq_nil_iff.mp h.symm
    rfl
  | cons v rest ih =>
    obtain ⟨status, later, rfl, hstatus, hlater⟩ := List.map_eq_cons_iff.mp h.symm
    have hstatus : v.result = .ok status := hstatus.symm
    rw [results, hstatus, ih hlater.symm]
    rfl

/-- Entered again, no branch of a row has settled. -/
theorem round_enter_unsettled (run : Runner) (cue : Cue) (index : Nat) (row : List Branch)
    (s : Stage) :
    let x := round (Branch.enter run) cue index row s
    ∀ statuses, results x.1 = .ok statuses → ∀ b ∈ x.2.1, b.settled = none := by
  induction row generalizing index s with
  | nil => exact fun _ _ => List.forall_mem_nil _
  | cons b rest ih =>
    intro x statuses h
    rcases hcall : Branch.enter run (cue.child index) b s with ⟨v, c, t⟩
    have hc : c.settled = none := congrArg (·.2.1.settled) hcall.symm
    cases hv : v.result with
    | error e =>
      have hx : x = _ := round_halts hcall hv
      simp only [hx, results, hv, reduceCtorEq] at h
    | ok status =>
      have hx : x = _ := round_goes_on _ hcall hv
      simp only [hx, results, hv] at h
      cases hlater : results (round (Branch.enter run) cue (index + 1) rest t).1 with
      | error e => rw [hlater] at h; cases h
      | ok later =>
        rw [hx]
        exact List.forall_mem_cons.mpr ⟨hc, ih (index + 1) t later hlater⟩

end

namespace Lane

section

variable {π : Type} (cue : Cue) (a : Lane π) (s : Stage)

theorem tick_apply (dt : Float32) (body : Play π Status) (exit : Play π Unit) :
    Lane.tick cue dt body exit (a, s) =
      if a.settled.isSome then (.ok none, a, s)
      else
        match cue.tick dt body (a.child, s) with
        | (.error e, p, t) => (.error e, ⟨a.settled, p⟩, t)
        | (.ok status, p, t) =>
          if status.isRunning then (.ok none, ⟨a.settled, p⟩, t)
          else
            match cue.exit exit (p, t) with
            | (.error e, q, u) => (.error e, ⟨a.settled, q⟩, u)
            | (.ok _, q, u) => (.ok (some status), ⟨some status, q⟩, u) := by
  simp only [Lane.tick, Play.bind_apply, Play.read]
  split
  · rfl
  simp only [Play.bind_apply, onChild, Play.part]
  rcases cue.tick dt body (a.child, s) with ⟨e | status, p, t⟩
  · rfl
  by_cases hrunning : status.isRunning = true
  · simp only [if_pos hrunning]
    rfl
  simp only [if_neg hrunning, Play.bind_apply, Play.part, Play.change]
  rcases cue.exit exit (p, t) with ⟨e | _, q, u⟩ <;> rfl

end

section

variable (run : Runner) (cue : Cue) {s : Step Command} (a : Lane s.Progress) (w : Stage)

def branch : Branch := ⟨⟨s, a.child⟩, a.settled⟩

theorem enter_branch :
    let x := Lane.enter cue (s.enter run cue) (a, w)
    a.branch.enter run cue w = (.entered x.1, x.2.1.branch, x.2.2) := rfl

theorem tick_branch (dt : Float32) :
    let x := Lane.tick cue dt (s.tick run dt cue) (s.exit run cue) (a, w)
    ∃ v, a.branch.tick run dt cue w = (v, x.2.1.branch, x.2.2) ∧ v.result = x.1 := by
  intro x
  have hx : x = _ := Lane.tick_apply cue a w dt (s.tick run dt cue) (s.exit run cue)
  rw [hx, Branch.tick]
  by_cases hsettled : a.settled.isSome = true
  · rw [if_pos hsettled, if_pos (show a.branch.settled.isSome = true from hsettled)]
    exact ⟨.passed, rfl, rfl⟩
  rw [if_neg hsettled, if_neg (show ¬ a.branch.settled.isSome = true from hsettled)]
  rcases htick : cue.tick dt (s.tick run dt cue) (a.child, w) with ⟨e | status, p, t⟩
  all_goals
    have htick : cue.tick dt (a.branch.step.tick run dt cue) (a.branch.progress, w) = _ := htick
    rw [htick]
  · exact ⟨.ticked (.error e), rfl, rfl⟩
  by_cases hrunning : status.isRunning = true
  · simp only [if_pos hrunning]
    exact ⟨.ticked (.ok status), rfl, rfl⟩
  simp only [if_neg hrunning]
  rcases hexit : cue.exit (s.exit run cue) (p, t) with ⟨e | _, q, u⟩
  all_goals
    have hexit : cue.exit (a.branch.step.exit run cue) (p, t) = _ := hexit
    rw [hexit]
  · exact ⟨.exited status (.error e), rfl, rfl⟩
  · exact ⟨.exited status (.ok ()), rfl, rfl⟩

end

end Lane

theorem enterLanes_round (run : Runner) (cue : Cue) : (l : List (Step Command)) → (index : Nat) →
    (a : Lanes l) → (s : Stage) →
    let x := enterLanes run l cue index (a, s)
    ∃ vs, round (Branch.enter run) cue index (branches l a) s = (vs, branches l x.2.1, x.2.2) ∧
      x.1 = (results vs).map fun _ => ()
  | [], _, _, _ => ⟨[], rfl, rfl⟩
  | s :: rest, index, a, w => by
    intro x
    have hcall := a.1.enter_branch run (cue.child index) w
    rcases hlane : Lane.enter (cue.child index) (s.enter run (cue.child index)) (a.1, w) with
      ⟨e | _, lane, t⟩ <;> rw [hlane] at hcall
    · have hx : x = (.error e, (lane, a.2), t) := Play.first_halts _ hlane
      rw [hx]
      exact ⟨[.entered (.error e)], round_halts hcall rfl, rfl⟩
    · have hx : x = Play.second (enterLanes run rest cue (index + 1)) ((lane, a.2), t) :=
        Play.first_goes_on _ hlane
      obtain ⟨vs, hround, hresult⟩ := enterLanes_round run cue rest (index + 1) a.2 t
      refine ⟨.entered (.ok ()) :: vs, ?_, ?_⟩
      · have hrow := round_goes_on (branches rest a.2) hcall rfl
        rw [hround] at hrow
        rw [hx]
        exact hrow
      · rw [hx]
        show (enterLanes run rest cue (index + 1) (a.2, t)).1 = _
        rw [hresult]
        simp only [results, Service.result, Except.map]
        cases results vs <;> rfl

theorem enterLanes_unsettled (run : Runner) (cue : Cue) (l : List (Step Command)) (index : Nat)
    (a : Lanes l) (s : Stage) :
    let x := enterLanes run l cue index (a, s)
    x.1 = .ok () → ∀ b ∈ branches l x.2.1, b.settled = none := by
  intro x hok
  obtain ⟨vs, hround, hx⟩ := enterLanes_round run cue l index a s
  have hunsettled := round_enter_unsettled run cue index (branches l a) s
  have hx : x.1 = _ := hx
  rw [hround] at hunsettled
  rw [hx] at hok
  cases hresults : results vs with
  | error e => rw [hresults] at hok; cases hok
  | ok statuses => exact hunsettled statuses hresults

theorem tickLanes_round (run : Runner) (dt : Float32) (cue : Cue) : (l : List (Step Command)) →
    (index : Nat) → (a : Lanes l) → (s : Stage) →
    let x := tickLanes run dt l cue index (a, s)
    ∃ vs, round (Branch.tick run dt) cue index (branches l a) s =
      (vs, branches l x.2.1, x.2.2) ∧ x.1 = results vs
  | [], _, _, _ => ⟨[], rfl, rfl⟩
  | s :: rest, index, a, w => by
    intro x
    obtain ⟨v, hcall, hresult⟩ := a.1.tick_branch run (cue.child index) w dt
    rcases hlane : Lane.tick (cue.child index) dt (s.tick run dt (cue.child index))
      (s.exit run (cue.child index)) (a.1, w) with ⟨e | status, lane, t⟩ <;>
      rw [hlane] at hcall hresult
    · have hx : x = (.error e, (lane, a.2), t) := Play.first_halts _ hlane
      rw [hx]
      exact ⟨[v], round_halts hcall hresult, by simp only [results, hresult]⟩
    · have hx : x = (Play.second (tickLanes run dt rest cue (index + 1)) >>= fun later =>
          pure (status :: later)) ((lane, a.2), t) := Play.first_goes_on _ hlane
      obtain ⟨vs, hround, hresults⟩ := tickLanes_round run dt cue rest (index + 1) a.2 t
      have hx := hx.trans (Play.bind_apply _ _ _)
      simp only [Play.second, Play.part] at hx
      have hrow := round_goes_on (branches rest a.2) hcall hresult
      rw [hround] at hrow
      rcases hlater : tickLanes run dt rest cue (index + 1) (a.2, t) with ⟨e | later, lanes, u⟩ <;>
        rw [hlater] at hx hrow hresults <;> rw [hx]
      · exact ⟨v :: vs, hrow, by simp only [results, hresult, ← hresults]; rfl⟩
      · exact ⟨v :: vs, hrow, by simp only [results, hresult, ← hresults]; rfl⟩

theorem pendingLanes_eq : (l : List (Step Command)) → (a : Lanes l) →
    pendingLanes l a = (branches l a).countP (·.settled.isNone)
  | [], _ => rfl
  | s :: rest, a => by
    have hpending : pendingLanes (s :: rest) a =
        (if a.1.settled.isNone then 1 else 0) + pendingLanes rest a.2 := rfl
    rw [hpending, pendingLanes_eq rest a.2, branches, List.countP_cons, Nat.add_comm]

/-- What holds of a stage, and of it with any notice, holds whether a notice was left or not. -/
theorem Stage.noticed {P : Stage → Prop} {t u : Stage} (h : u = t ∨ ∃ n, u = t.note (.notice n))
    (ht : P t) (hnote : ∀ n, P (t.note (.notice n))) : P u := by
  rcases h with rfl | ⟨n, rfl⟩
  · exact ht
  · exact hnote n

namespace Quorum

def frame (mode : Quorum) (steps : List (Step Command)) (cue : Cue) (run : Runner) (dt : Float32) :
    Play (Lanes steps) Status :=
  (Step.parallel mode steps).tick run dt cue

def answer (mode : Quorum) (statuses : List (Option Status)) (row : List Branch) : Status :=
  (mode.verdict statuses.reduceOption (row.countP (·.settled.isNone))).getD .running

theorem conclude_apply {π : Type} (mode : Quorum) (owner : String) (settled : List Status)
    (pending : Nat) (p : π) (s : Stage) :
    ∃ t, mode.conclude owner settled pending (p, s) =
        (.ok ((mode.verdict settled pending).getD .running), p, t) ∧
      (t = s ∨ ∃ n, t = s.note (.notice n)) := by
  cases hverdict : mode.verdict settled pending with
  | none =>
    simp only [conclude, hverdict]
    exact ⟨s, rfl, .inl rfl⟩
  | some status =>
    simp only [conclude, hverdict]
    by_cases hpending : pending > 0
    · rw [if_pos hpending]
      exact ⟨_, rfl, .inr ⟨.settledEarly owner mode status pending, rfl⟩⟩
    · rw [if_neg hpending]
      exact ⟨s, rfl, .inl rfl⟩

theorem frame_round (mode : Quorum) (steps : List (Step Command)) (cue : Cue) (run : Runner)
    (dt : Float32) (a : Lanes steps) (s : Stage) :
    let x := mode.frame steps cue run dt (a, s)
    ∃ vs t, round (Branch.tick run dt) cue 0 (branches steps a) s =
        (vs, branches steps x.2.1, t) ∧
      x.1 = (results vs).map (mode.answer · (branches steps x.2.1)) ∧
      (x.2.2 = t ∨ ∃ n, x.2.2 = t.note (.notice n)) := by
  intro x
  have hx : x = _ := Play.bind_apply _ _ _
  obtain ⟨vs, hround, hresults⟩ := tickLanes_round run dt cue steps 0 a s
  rcases htick : tickLanes run dt steps cue 0 (a, s) with ⟨e | statuses, b, t⟩ <;>
    rw [htick] at hx hround hresults
  · rw [hx]
    exact ⟨vs, t, hround, by rw [← hresults]; rfl, .inl rfl⟩
  · obtain ⟨u, hconclude, hu⟩ :=
      mode.conclude_apply cue.owner statuses.reduceOption (pendingLanes steps b) b t
    have hx : x = (_, b, u) := hx.trans hconclude
    rw [hx]
    refine ⟨vs, t, hround, ?_, hu⟩
    rw [← hresults, pendingLanes_eq]
    rfl

end Quorum

/-- In each frame of a parallel step there was one round over its branches, which left the next
row, and nobody was called after it. -/
inductive Rounds (mode : Quorum) (cue : Cue) :
    List Frame → List (List Service) → List Branch → List Branch → Prop
  | nil (row : List Branch) : Rounds mode cue [] [] row row
  | cons {f : Frame} {fs : List Frame} {vs : List Service} {later : List (List Service)}
      {row row' row'' : List Branch} {t : Stage} :
      round (Branch.tick f.run f.dt) cue 0 row f.world = (vs, row', t) →
      f.answer = (results vs).map (mode.answer · row') →
      (f.after = t ∨ ∃ n, f.after = t.note (.notice n)) →
      Rounds mode cue fs later row' row'' → Rounds mode cue (f :: fs) (vs :: later) row row''

theorem Rounds.frames (mode : Quorum) (steps : List (Step Command)) (cue : Cue)
    (os : List Occasion) (a : Lanes steps) :
    let x := Play.frames (mode.frame steps cue) os a
    ∃ rounds, Rounds mode cue x.1 rounds (branches steps a) (branches steps x.2) := by
  induction os generalizing a with
  | nil => exact ⟨[], .nil _⟩
  | cons o rest ih =>
    obtain ⟨vs, t, hround, hanswer, hafter⟩ := mode.frame_round steps cue o.run o.dt a o.world
    obtain ⟨later, hlater⟩ := ih _
    exact ⟨vs :: later, .cons hround hanswer hafter hlater⟩

theorem Play.occasions_frames {π : Type} (x : Runner → Float32 → Play π Status)
    (os : List Occasion) (p : π) : (Play.frames x os p).1.map (·.toOccasion) = os := by
  induction os generalizing p with
  | nil => rfl
  | cons o rest ih => simp only [Play.frames, List.map_cons, ih]

end Sequencer
