import Sequencer.Proofs.Unrelated.Commands

/-!
# Unrelated sequences do not interfere

All sequences share one registry, one active list, one barrier board and one frame. Still, what happens
to the sequences of a name does not depend on what others there are, as long as all of them keep to
themselves: it is the same in the run in which the others never come to be.
-/

set_option autoImplicit false

namespace Sequencer

namespace Stage

/-- What is left of a run when everything for others is left out: commands that name the sequence, and
those that name nobody. -/
def commandsFor (name : String) : List Command → Stage → List Command
  | [], _ => []
  | c :: rest, s =>
    let later := commandsFor name rest (s.step c).2
    if c.addressee s = .nobody ∨ c.addressee s = .sequence name then c :: later else later

def repliesTo (name : String) : List Command → Stage → List Reply
  | [], _ => []
  | c :: rest, s =>
    let later := repliesTo name rest (s.step c).2
    if c.addressee s = .sequence name then (s.step c).1 :: later else later

end Stage

variable {name : String} {own : String → Prop} {s t : Stage}

/-- The callbacks behind a command of the host are carried out by a runner that spares the others. -/
theorem Stage.step_dispatches : ∃ run : Runner, run.SparesOthers ∧
    ∀ (s : Stage) (c : Command), s.step c = (replyOf (dispatch run c s).1, (dispatch run c s).2) :=
  ⟨perform 999, perform_sparesOthers 998, fun _ _ => rfl⟩

/-- By induction on the commands: each of them is given on both stages, or it is for others and left
out on the one where the sequences are alone. -/
theorem Among.run (log : Bool) (l : List Command) (hl : ∀ c ∈ l, c.Suits name own)
    (h : Among name own s t) :
    t.repliesTo name (s.commandsFor name l) = s.repliesTo name l ∧
      Among name own (s.run log l).2 (t.run log (s.commandsFor name l)).2 := by
  obtain ⟨run, hrun, hstep⟩ := Stage.step_dispatches
  induction l generalizing s t with
  | nil => exact ⟨rfl, h⟩
  | cons c rest ih =>
    have hc := hl c List.mem_cons_self
    have ih := fun {s t : Stage} => ih (s := s) (t := t) fun d hd => hl d (List.mem_cons_of_mem c hd)
    by_cases hn : c.addressee s = .nobody
    · -- given on both, and the replies are nobody's
      have hboth : Among name own (s.step c).2 (t.step c).2 := by
        rw [hstep, hstep]
        exact dispatch_nobody hrun h hn
      have hnt : c.addressee t = .nobody := (h.addressee (.inl hn)).trans hn
      simpa [Stage.commandsFor, Stage.repliesTo, Stage.run, Stage.report, hn, hnt] using ih hboth
    · by_cases ha : c.addressee s = .sequence name
      · -- given on both, with the same reply
        obtain ⟨hr, hboth⟩ := dispatch_echo hrun hc h ha
        have hreply : (t.step c).1 = (s.step c).1 := by rw [hstep, hstep, hr]
        have hboth : Among name own (s.step c).2 (t.step c).2 := by
          rw [hstep, hstep]
          exact hboth
        have hat : c.addressee t = .sequence name := (h.addressee (.inr ha)).trans ha
        simpa [Stage.commandsFor, Stage.repliesTo, Stage.run, Stage.report, ha, hat, hreply]
          using ih hboth
      · -- for others: the run without it stands still
        have hleft : Among name own (s.step c).2 t := by
          rw [hstep]
          exact dispatch_ignored hrun hc h hn ha
        simpa [Stage.commandsFor, Stage.repliesTo, Stage.run, Stage.report, hn, ha] using ih hleft

/-- Before the first command there is no sequence. -/
theorem opening_among (settings : Settings) (host : Host) :
    Among name own (.opening settings host) (.opening settings host) :=
  ⟨[], 0,
    { total := rfl
      incarnations := rfl
      length := rfl
      akin := nofun
      mine := nofun
      others := nofun
      named := nofun
      find := .none
      listed := nofun
      active := rfl
      count := fun _ _ => rfl
      kept := fun _ _ hb _ => hb
      unkept := fun _ hb => hb
      held := nofun
      dated := nofun
      datedAlone := nofun
      story := rfl }⟩

/-- What happens to the sequences of a name is the same as in the run in which everything for others is
left out, and nobody else is there. Given are any commands of the host that bring only what keeps to
itself: sequences of the name whose barriers are `own`, other sequences with other barriers, and steps
that the host drives by hand. Then the replies to the commands that name the sequences are the same;
so is their story, which has every call of their steps with the time that it was given and every
status, every question, every callback, every turn and every move of a cursor; and so are the cursor
and the flags. Since the commands are any, this holds at every moment of a run.

Questions that are always answered and code that does no more than edit the host's own state belong to
what keeps to itself: a panic would take the rest of the frame from everyone. -/
theorem unrelated_sequences_do_not_interfere (name : String) (own : String → Prop)
    (settings : Settings) (host : Host) (log : Bool) (l : List Command)
    (hl : ∀ c ∈ l, c.Suits name own) :
    let s := Stage.opening settings host
    let l' := s.commandsFor name l
    let r := (s.run log l).2
    let r' := (s.run log l').2
    s.repliesTo name l' = s.repliesTo name l ∧ r'.story name = r.story name ∧
      (r'.named? name).map (·.info) = (r.named? name).map (·.info) ∧
      ∀ q ∈ r'.sequences, q.name = name := by
  intro s l' r r'
  obtain ⟨hreplies, ids, n, h⟩ := (opening_among settings host).run log l hl
  refine ⟨hreplies, h.story, h.info, fun q hq => ?_⟩
  obtain ⟨j, hj, rfl⟩ := List.mem_iff_getElem.mp hq
  have hself : r'.sequence j = r'.sequences[j] := by
    rw [Stage.sequence, List.getElem?_eq_getElem hj]
    rfl
  exact hself ▸ h.name_alone (h.length ▸ hj)

/-- A sequence with a barrier of its own and a choice, beside one that is stopped and removed while the
other runs: of the nine commands five are left. -/
theorem unrelated_sequences_do_not_interfere_beside :
    let a : Outline Command :=
      { name := "a"
        steps := [.group [.frames 1, .barrier "gate" 1],
          .choose { test := .pollsAtLeast 1, code := [.edit (.flag "f" true)] }
            [.probe "p" [.running, .succeeded]] []]
        onStarted := some [.ask (.isRunning "b")] }
    let b : Outline Command :=
      { name := "b", steps := [.parallel .all [.barrier "door" 1, .probe "q" [.running]]] }
    let l : List Command := [.register b, .register a, .start "b", .start "a", .tick 0 (some 2),
      .stop "b", .tick 0 (some 3), .remove "b", .ask (.isRunning "a")]
    let s := Stage.opening {} {}
    let l' := s.commandsFor "a" l
    let r := (s.run false l).2
    let r' := (s.run false l').2
    (∀ c ∈ l, c.Suits "a" (· = "gate")) ∧ l'.length = 5 ∧ r.sequences.length = 2 ∧
      s.repliesTo "a" l' = s.repliesTo "a" l ∧ r'.story "a" = r.story "a" ∧
      (r'.named? "a").map (·.info) = (r.named? "a").map (·.info) ∧
      ∀ q ∈ r'.sequences, q.name = "a" := by
  intro a b l
  have hcount : Question.IsOwn { test := .pollsAtLeast 1, code := [.edit (.flag "f" true)] } :=
    ⟨by simp [Command.isHarmless], fun _ polls => 1 ≤ polls, fun _ _ _ => rfl⟩
  have ha : a.Fits (.apart (· = "a") (· = "gate")) :=
    { named := rfl
      steps := by simp [a, Casting.apart, Step.Each, stepsEach, Step.KeepsTo, hcount]
      guards := nofun
      validators := nofun
      started := by simp [a, Casting.apart, Command.isHarmless]
      completed := nofun
      stopped := nofun }
  have hb : b.Fits (.apart (· ≠ "a") (¬ · = "gate")) :=
    { named := by simp [b, Casting.apart]
      steps := by simp [b, Casting.apart, Step.Each, stepsEach, Step.KeepsTo]
      guards := nofun
      validators := nofun
      started := nofun
      completed := nofun
      stopped := nofun }
  have hl : ∀ c ∈ l, c.Suits "a" (· = "gate") := by
    simp [l, Command.Suits, ha, hb]
  exact ⟨hl, by decide +kernel, by decide +kernel,
    unrelated_sequences_do_not_interfere "a" (· = "gate") {} {} false l hl⟩

/-- Steps that keep to themselves and callbacks that do not operate on sequences are not enough. A
callback that panics ends the frame before a later sequence has its turn, and the cursor of that one
stays behind. A guard that reads the scene finds there what a callback of another sequence has left,
and a sequence starts that would be refused if it were alone. -/
theorem panic_and_guard_interfere :
    let s := Stage.opening {} {}
    (let a : Outline Command := { name := "a", steps := [.frames 1] }
     let b : Outline Command := { name := "b", onCompleted := some [.panic "boom"] }
     let l : List Command := [.register b, .register a, .start "b", .start "a", .tick 1 none]
     let l' := s.commandsFor "a" l
     stepsEach (Step.KeepsTo fun _ => False) Question.IsOwn (a.steps ++ b.steps) ∧
       ((s.run false l).2.named? "a").map (·.current) = some 0 ∧
       ((s.run false l').2.named? "a").map (·.current) = some 1) ∧
    (let a : Outline Command :=
       { name := "a", steps := [.frames 1], guards := [⟨.hasSystem "lamp", none⟩] }
     let b : Outline Command :=
       { name := "b", steps := [.frames 1], onStarted := some [.edit (.addSystem "lamp")] }
     let l : List Command := [.register b, .register a, .start "b", .start "a"]
     let l' := s.commandsFor "a" l
     stepsEach (Step.KeepsTo fun _ => False) Question.IsOwn (a.steps ++ b.steps) ∧
       ((s.run false l).2.named? "a").map (·.running) = some true ∧
       ((s.run false l').2.named? "a").map (·.running) = some false) := by
  intro s
  constructor
  · intro a b l l'
    exact ⟨by simp [a, b, stepsEach, Step.Each, Step.KeepsTo], by decide +kernel, by decide +kernel⟩
  · intro a b l l'
    exact ⟨by simp [a, b, stepsEach, Step.Each, Step.KeepsTo], by decide +kernel, by decide +kernel⟩

end Sequencer
