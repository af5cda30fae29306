import Sequencer.Proofs.Moments.Runners
import Sequencer.Proofs.Pause.Flag
import Sequencer.Proofs.Pause.History
import Sequencer.Proofs.Turns

/-!
# Pausing is transparent

A frame that finds a sequence paused leaves the sequence as it is and in the active list. So frames
of any length may be put between the turns of a sequence, anywhere in a run: if its steps depend on
nothing but themselves, they are called as they would have been, they answer the same, and the
sequence completes in the same turn. And only who pauses or resumes a sequence changes whether it is
paused.
-/

set_option autoImplicit false

namespace Sequencer

open Site (Nowhere)

/-- In a frame that begins on this stage the turn of the sequence comes, its flag is set then, and
before and after that turn nobody operates on it. -/
def FoundPaused (run : Runner) (dt : Float32) (id : Nat) (s : Stage) : Prop :=
  ∃ before after u, s.active = before ++ id :: after ∧
    Conductor.takeTurns run dt before s = (.ok (), u) ∧ (u.sequence id).paused = true ∧
    Unattended id s u ∧
    let v := (Conductor.takeTurn run dt id u).2
    Unattended id v (Conductor.takeTurns run dt after v).2

/-- Such a frame passes the sequence by: its turn does nothing but say so. -/
theorem FoundPaused.passedBy {run : Runner} {dt : Float32} {id : Nat} {s : Stage}
    (h : FoundPaused run dt id s) : PassedBy id s (Conductor.tick run dt s).2 := by
  obtain ⟨before, after, u, hactive, hu, hpaused, hbefore, hafter⟩ := h
  have hturn : Conductor.takeTurn run dt id u = (.ok (), u.note (.turn id .paused)) :=
    Conductor.takeTurn_paused hpaused
  have hframe : Conductor.tick run dt s =
      Conductor.takeTurns run dt after (u.note (.turn id .paused)) := by
    show Conductor.takeTurns run dt s.active s = _
    rw [hactive, Conductor.takeTurns_append hu, Conductor.takeTurns, Act.bind_apply, hturn]
  rw [hturn] at hafter
  rw [hframe]
  have hnoted : PassedBy id u (u.note (.turn id .paused)) := ⟨[_], rfl, by simp [Entry.passesBy]⟩
  exact hbefore.passedBy.trans (hnoted.trans hafter.passedBy)

inductive PassingFrames (run : Runner) (id : Nat) : List Float32 → Stage → Stage → Prop
  | none (s : Stage) : PassingFrames run id [] s s
  | frame {dt : Float32} {dts : List Float32} {s t : Stage} :
      PassedBy id s (Conductor.tick run dt s).2 →
      PassingFrames run id dts (Conductor.tick run dt s).2 t → PassingFrames run id (dt :: dts) s t

section

variable {run : Runner} {id : Nat} {m k k' : Moment} {l : List Doing}

/-- Frames that find the sequence paused add nothing to what is done to it. -/
theorem History.passing (hrun : run.Follows) {dts : List Float32} {pending : List Errand}
    {s t : Stage} (h : History run id m l ⟨pending, s⟩) (hp : PassingFrames run id dts s t) :
    History run id m l ⟨pending, t⟩ := by
  induction hp with
  | none s => exact h
  | @frame dt dts s t hframe _ ih =>
    have hl : Leads Nowhere _ s _ := Conductor.tick_follows hrun dt s
    exact ih (h.course hl hframe.untouched)

/-- Two runs in which the same is done to a sequence whose steps are self-contained leave it the
same, and the same is told of it: which of its steps were called, what they answered, and when it
completed. -/
theorem History.same (h : History run id m l k) (h' : History run id m l k') (hrun : run.Follows)
    (hm : m.AtHome run id) : (k'.stage.sequence id).core = (k.stage.sequence id).core ∧
      k'.stage.told id = k.stage.told id := by
  obtain ⟨htwins, l, hl, hl'⟩ := h.alongside h' hrun hm hm ⟨hm.lt, hm.lt, rfl⟩
  exact ⟨htwins.core, hl'.trans hl.symm⟩

/-- A frame that passes a sequence by leaves it as it is and, unless it is removed, in the active
list. -/
theorem Moment.Reached.passed_by (h : m.Reached) (hrun : run.Follows)
    (hid : id < m.stage.sequences.length) (dt : Float32)
    (hp : PassedBy id m.stage (Conductor.tick run dt m.stage).2) :
    ((Conductor.tick run dt m.stage).2.sequence id).core = (m.stage.sequence id).core ∧
      (Retained id m.stage (Conductor.tick run dt m.stage).2 → id ∈ m.stage.active →
        id ∈ (Conductor.tick run dt m.stage).2.active) := by
  have hs := h.kept.chronicled.sound
  have hl : Leads Nowhere _ m.stage _ := Conductor.tick_follows hrun dt m.stage
  exact ⟨(hl.course.leaves hs hid (fun _ => False.elim) hp.untouched).core,
    hl.keepsListed hs hid hp⟩

end

/-- At any moment of any run: a frame that finds a sequence paused at its turn, and in which nobody
operates on it, passes it by, and a frame that passes a sequence by leaves it as it is, with the
progress of all its steps, and in the active list. Two runs from
there in which the same is done to the sequence call its steps alike and complete it alike, if its
steps are self-contained, and frames that find it paused may be put in anywhere, since they do
nothing to it. And a command that is not given to pause or resume it leaves it paused or not as it
was, unless user code pauses or resumes it meanwhile. -/
theorem pausing_is_transparent {m : Moment} (h : m.Reached) {run : Runner} (hrun : run.Follows)
    {id : Nat} (hid : id < m.stage.sequences.length) :
    (∀ dt, FoundPaused run dt id m.stage →
      PassedBy id m.stage (Conductor.tick run dt m.stage).2) ∧
    (∀ dt, PassedBy id m.stage (Conductor.tick run dt m.stage).2 →
      ((Conductor.tick run dt m.stage).2.sequence id).core = (m.stage.sequence id).core ∧
        (Retained id m.stage (Conductor.tick run dt m.stage).2 → id ∈ m.stage.active →
          id ∈ (Conductor.tick run dt m.stage).2.active)) ∧
    (m.Outside id → (m.stage.sequence id).SelfContained run id →
      ∀ (l : List Doing) (k : Moment), History run id m l k →
        (∀ k', History run id m l k' → (k'.stage.sequence id).core = (k.stage.sequence id).core ∧
          k'.stage.told id = k.stage.told id) ∧
        ∀ dts t, PassingFrames run id dts k.stage t → History run id m l ⟨k.pending, t⟩) ∧
    ∀ (depth : Nat) (c : Command), c.pauses? ≠ some (m.stage.sequence id).name →
      OnlyAdds (fun e => e.pauses (m.stage.sequence id).name = false) m.stage
        (perform depth c m.stage).2 →
      ((perform depth c m.stage).2.sequence id).paused = (m.stage.sequence id).paused := by
  refine ⟨fun dt hp => hp.passedBy, fun dt hp => h.passed_by hrun hid dt hp,
    fun hout hx l k hk => ?_, fun depth c hc hu => ?_⟩
  · exact ⟨fun k' hk' => hk.same hk' hrun ⟨h.kept, hout, hid, hx⟩,
      fun dts t hp => hk.passing hrun hp⟩
  · exact perform_paused h.kept.chronicled.sound hid depth c hc hu

/-- A wait within a bound is half over when the sequence is paused for two frames, each of them
longer than the bound. It goes on as in a run in which nobody paused it, and the sequence completes
in its second turn after that. -/
theorem pausing_is_transparent_in_a_wait :
    let a : Outline Command := { name := "a", steps := [.bounded 3 .fail [.wait 2]] }
    let run := perform 1
    let s := ((Stage.opening {} {}).run false [.register a, .start "a"]).2
    let half := (Conductor.tick run 1 s).2
    let straight := (Conductor.tick run 1 (Conductor.tick run 1 half).2).2
    let paused := (perform 1 (.pause "a") half).2
    let waited := (Conductor.tick run 7 (Conductor.tick run 5 paused).2).2
    let resumed := (perform 1 (.resume "a") waited).2
    let later := (Conductor.tick run 1 (Conductor.tick run 1 resumed).2).2
    let l : List Doing := [.turn 1, .turn 1, .turn 1]
    PassingFrames run 0 [5, 7] paused waited ∧
      History run 0 ⟨[], s⟩ l ⟨[], straight⟩ ∧ History run 0 ⟨[], s⟩ l ⟨[], later⟩ ∧
      (straight.sequence 0).running = false ∧
      (later.sequence 0).core = (straight.sequence 0).core ∧ later.told 0 = straight.told 0 := by
  intro a run s half straight paused waited resumed later l
  have hrun : run.Follows := fun c u => (Session.perform 1 c u).leads
  have hs : Moment.Reached ⟨[], s⟩ :=
    .of_session (Session.run false [.register a, .start "a"] (.opening {} {}))
  have hid : 0 < s.sequences.length := by decide +kernel
  have hsteps : (s.sequence 0).steps = a.steps := by rfl
  have hcontained : (s.sequence 0).SelfContained run 0 := by
    intro x hx
    rw [hsteps] at hx
    obtain rfl := List.mem_singleton.mp hx
    have hsecluded : Step.Secluded run 0 (.bounded 3 .fail [.wait 2]) := ⟨trivial, trivial⟩
    exact hsecluded.selfContained
  have hruns : ∀ {l : List Doing} {u : Stage}, History run 0 ⟨[], s⟩ l ⟨[], u⟩ →
      (∀ v, History run 0 ⟨[], s⟩ l ⟨[], v⟩ →
        (v.sequence 0).core = (u.sequence 0).core ∧ v.told 0 = u.told 0) ∧
      ∀ dts v, PassingFrames run 0 dts u v → History run 0 ⟨[], s⟩ l ⟨[], v⟩ := by
    intro l u hu
    obtain ⟨-, -, hruns, -⟩ := pausing_is_transparent hs hrun hid
    obtain ⟨hsame, hpass⟩ := hruns (by nofun) hcontained l _ hu
    exact ⟨fun v hv => hsame _ hv, hpass⟩
  have hframes : PassingFrames run 0 [5, 7] paused waited := by
    have hpass : ∀ (dt : Float32) (u : Stage), u.active = [] ++ 0 :: [] →
        (u.sequence 0).paused = true → PassedBy 0 u (Conductor.tick run dt u).2 := by
      intro dt u hactive hp
      have hfound : FoundPaused run dt 0 u :=
        ⟨[], [], u, hactive, rfl, hp, .refl _ u, .refl _ _⟩
      exact hfound.passedBy
    exact .frame (hpass 5 _ (by decide +kernel) (by decide +kernel))
      (.frame (hpass 7 _ (by decide +kernel) (by decide +kernel)) (.none _))
  have hturn : ∀ {l : List Doing} {u : Stage}, History run 0 ⟨[], s⟩ l ⟨[], u⟩ →
      (u.active = [] ++ 0 :: [] ∧ (u.sequence 0).paused = false ∧
        (Conductor.takeTurn run 1 0 u).1.isOk = true ∧
        (u.turnOf 0 = .completed →
          ∀ e ∈ (u.completing 0).newEntries (Conductor.takeTurn run 1 0 u).2,
            e.touches 0 = false)) →
      History run 0 ⟨[], s⟩ (l ++ [.turn 1]) ⟨[], (Conductor.tick run 1 u).2⟩ := by
    rintro l u hu ⟨hact, hp, hok, hback⟩
    have ht := Act.eq_of_isOk hok
    have hlast : (Conductor.tick run 1 u).2 = (Conductor.takeTurn run 1 0 u).2 := by
      show (Conductor.takeTurns run 1 u.active u).2 = _
      rw [hact, List.nil_append, Conductor.takeTurns, Act.bind_apply, ht]
      rfl
    refine hu.frame hrun hact rfl (.refl _ u) hp ht hback ?_
    rw [hlast]
    exact .refl _ _
  have hcommand : ∀ {l : List Doing} {u : Stage} (c : Command), History run 0 ⟨[], s⟩ l ⟨[], u⟩ →
      (∀ e ∈ u.newEntries (run c u).2, e.touches 0 = false) →
      History run 0 ⟨[], s⟩ l ⟨[], (run c u).2⟩ := by
    intro l u c hu hc
    have hl : Leads Nowhere _ u _ := hrun c u
    exact hu.course hl (.of_newEntries hl.course.grows hc)
  have hhalf : History run 0 ⟨[], s⟩ [.turn 1] ⟨[], half⟩ :=
    hturn .opening (by decide +kernel)
  have hstraight : History run 0 ⟨[], s⟩ l ⟨[], straight⟩ :=
    hturn (hturn hhalf (by decide +kernel)) (by decide +kernel)
  have hpaused : History run 0 ⟨[], s⟩ [.turn 1] ⟨[], paused⟩ :=
    hcommand (.pause "a") hhalf (by decide +kernel)
  have hwaited : History run 0 ⟨[], s⟩ [.turn 1] ⟨[], waited⟩ := (hruns hpaused).2 _ _ hframes
  have hresumed : History run 0 ⟨[], s⟩ [.turn 1] ⟨[], resumed⟩ :=
    hcommand (.resume "a") hwaited (by decide +kernel)
  have hlater : History run 0 ⟨[], s⟩ l ⟨[], later⟩ :=
    hturn (hturn hresumed (by decide +kernel)) (by decide +kernel)
  exact ⟨hframes, hstraight, hlater, by decide +kernel, (hruns hstraight).1 _ hlater⟩

end Sequencer
