import Sequencer.Proofs.Validators.Deeds

/-!
# Validators are asked once

The validators of a sequence are asked by the first attempt to start it that finds it idle and gets
past its guard, all of them and each once, and by no other. Attempts that are refused before that
leave them where they are; attempts after it have none to ask.
-/

set_option autoImplicit false

namespace Sequencer

/-- The sequence of the number, registered as `q`, with the validators that still wait and the
answers that were given. -/
structure Stage.Awaits (id : Nat) (q : Sequence) (waiting : List Validator)
    (given : List (Nat × Bool)) (s : Stage) : Prop where
  lt : id < s.sequences.length
  name : (s.sequence id).name = q.name
  guard : (s.sequence id).guard = q.guard
  validators : (s.sequence id).validators = waiting
  verdicts : s.verdicts id = given

/-- An attempt on a running sequence, or one that the guard does not let pass: no validator is
asked, and none is used up. -/
structure Stage.Refuses (id : Nat) (s : Stage) : Prop where
  unadmitted : ¬ s.Admits id
  answer : (Conductor.launch id s).1 = .ok (.ok false)
  start : ∀ run name, s.find? name = some id → Conductor.start run name s = Conductor.launch id s
  verdicts : (Conductor.launch id s).2.verdicts id = s.verdicts id
  sequence : (Conductor.launch id s).2.sequence id = s.sequence id

/-- The attempt that finds the validators waiting: all of them are asked once in their order. If
any answers no the start fails with the messages of those that do, and nothing else has happened;
otherwise the sequence runs. -/
structure Stage.Examines (id : Nat) (q : Sequence) (s : Stage) : Prop where
  admitted : s.Admits id
  unasked : s.verdicts id = []
  verdicts : (Conductor.launch id s).2.verdicts id = answers 0 q.validators s
  failed : failing q.validators s ≠ [] → ∀ run name, s.find? name = some id →
    Conductor.start run name s = (.ok (.error (.invalid q.name (failing q.validators s))),
      (s.checked id).noting (guardNotes id q.guard s ++ verdictNotes id 0 q.validators s))
  passed : failing q.validators s = [] → (Conductor.launch id s).1 = .ok (.ok true) ∧
    ((Conductor.launch id s).2.sequence id).running = true ∧
    ∀ run name r t, s.find? name = some id → Conductor.start run name s = (.ok r, t) → r = .ok true

structure Stage.Starts (id : Nat) (s : Stage) : Prop where
  admitted : s.Admits id
  answer : (Conductor.launch id s).1 = .ok (.ok true)
  start : ∀ run name r t, s.find? name = some id → Conductor.start run name s = (.ok r, t) →
    r = .ok true
  verdicts : (Conductor.launch id s).2.verdicts id = s.verdicts id

/-- What became of the attempts to start a sequence since it was registered. -/
inductive Account (id : Nat) (q : Sequence) (l : List (Deed × Stage)) (t : Stage) : Prop
  /-- All were refused, and the validators wait. -/
  | waiting : (∀ u, (.tried id, u) ∈ l → u.Refuses id) → t.Awaits id q q.validators [] →
      Account id q l t
  /-- One was the first to get past the guard. -/
  | checked {as bs : List (Deed × Stage)} {u : Stage} : l = as ++ (.tried id, u) :: bs →
      (∀ u, (.tried id, u) ∈ as → u.Refuses id) → u.Examines id q →
      (∀ u, (.tried id, u) ∈ bs → u.Refuses id ∨ u.Starts id) →
      t.Awaits id q [] (answers 0 q.validators u) → Account id q l t

section

variable {id : Nat} {q : Sequence} {vs : List Validator} {given : List (Nat × Bool)} {s t : Stage}

namespace Stage.Awaits

theorem untried (h : s.Awaits id q vs given) (ht : s.Untried t) : t.Awaits id q vs given :=
  ⟨by rw [ht.length]; exact h.lt, (ht.name id).trans h.name, (ht.guard id).trans h.guard,
    (ht.validators id).trans h.validators, (ht.verdicts id).trans h.verdicts⟩

theorem enroll (h : s.Awaits id q vs given) (q' : Sequence) :
    (s.enroll q').Awaits id q vs given := by
  have hsequence : (s.enroll q').sequence id = s.sequence id := by
    rw [s.sequence_enroll, if_neg (Nat.ne_of_lt h.lt)]
  have hlt := h.lt
  exact ⟨by rw [s.length_enroll]; omega, by rw [hsequence, h.name], by rw [hsequence, h.guard],
    by rw [hsequence, h.validators], h.verdicts⟩

theorem triesOnly {i : Nat} (h : s.Awaits id q vs given) (hi : id ≠ i) (ht : s.TriesOnly i t) :
    t.Awaits id q vs given := by
  have hsequence := ht.sequence id hi
  exact ⟨by rw [ht.length]; exact h.lt, by rw [hsequence, h.name], by rw [hsequence, h.guard],
    by rw [hsequence, h.validators], (ht.verdicts id hi).trans h.verdicts⟩

end Stage.Awaits

theorem filterMap_guardNotes (i : Nat) (guard : Option Condition) (s : Stage) :
    (guardNotes id guard s).filterMap (·.verdict? i) = [] := by
  cases guard <;> rfl

theorem filterMap_verdictNotes (k : Nat) (vs : List Validator) (s : Stage) :
    (verdictNotes id k vs s).filterMap (·.verdict? id) = answers k vs s := by
  rw [verdictNotes, List.filterMap_map, answers, ← List.filterMap_eq_map]
  exact congrArg (List.filterMap · _) (funext fun v => if_pos rfl)

/-- Whatever the launch refuses, the start does not go on with. -/
theorem Conductor.start_of_refused {run : Runner} {name : String} (hname : s.find? name = some id)
    (h : (launch id s).1 ≠ .ok (.ok true)) : start run name s = launch id s := by
  rw [start, onNamed_some hname, Act.bind_apply]
  rcases hl : launch id s with ⟨e | why | started, t⟩
  · rfl
  · rfl
  · cases started with
    | false => rfl
    | true => exact absurd (congrArg Prod.fst hl) h

/-- A start whose launch succeeds says so if it comes to an end. -/
theorem Conductor.start_of_launched {run : Runner} {name : String} {r : Except Refusal Bool}
    (h : (launch id s).1 = .ok (.ok true)) (hname : s.find? name = some id)
    (hstart : start run name s = (.ok r, t)) : r = .ok true := by
  rw [start, onNamed_some hname, Act.bind_apply] at hstart
  rcases hl : launch id s with ⟨r', u⟩
  rw [hl] at h hstart
  obtain rfl : r' = .ok (.ok true) := h
  simp only [Act.bind_apply, Act.change] at hstart
  rcases hn : notify run id .started (u.enlist id) with ⟨e | _, v⟩ <;> rw [hn] at hstart
  · cases hstart
  · exact (Except.ok.inj (congrArg Prod.fst hstart)).symm

namespace Stage.Awaits

theorem noting (h : s.Awaits id q vs given) (l : List Entry) :
    (s.noting l).Awaits id q vs (given ++ l.filterMap (·.verdict? id)) :=
  ⟨h.lt, h.name, h.guard, h.validators, by rw [s.verdicts_noting, h.verdicts]⟩

theorem checked (h : s.Awaits id q vs given) : (s.checked id).Awaits id q [] given := by
  have hsequence := s.sequence_modify_self (fun q => { q with validators := [] }) h.lt
  rw [← Stage.checked] at hsequence
  exact ⟨by rw [Stage.checked, s.length_modify]; exact h.lt, by rw [hsequence, ← h.name],
    by rw [hsequence, ← h.guard], by rw [hsequence], h.verdicts⟩

theorem begun (h : s.Awaits id q vs given) :
    (s.modify id Sequence.begun).Awaits id q vs given := by
  have hsequence := s.sequence_modify_self Sequence.begun h.lt
  exact ⟨by rw [s.length_modify]; exact h.lt, by rw [hsequence]; exact h.name,
    by rw [hsequence]; exact h.guard, by rw [hsequence]; exact h.validators, h.verdicts⟩

/-- A refused attempt leaves the validators where they are. -/
theorem refused (h : s.Awaits id q vs given) (hq : q.Harmless) (hs : ¬ s.Admits id) :
    s.Refuses id ∧ (Conductor.launch id s).2.Awaits id q vs given := by
  obtain ⟨l, hlaunch, hl⟩ : ∃ l, Conductor.launch id s = (.ok (.ok false), s.noting l) ∧
      l.filterMap (·.verdict? id) = [] := by
    cases hrun : (s.sequence id).running with
    | true => exact ⟨[_], Conductor.launch_running hrun, rfl⟩
    | false =>
      refine ⟨guardNotes id (s.sequence id).guard s ++
        [.notice (.refusedByGuard (s.sequence id).name)], ?_, ?_⟩
      · rw [Conductor.launch_unadmitted (h.guard ▸ hq.guard) hrun hs, ← Stage.noting_noting]
        rfl
      · rw [List.filterMap_append, filterMap_guardNotes]
        rfl
  have hafter := h.noting l
  rw [hl, List.append_nil] at hafter
  rw [hlaunch]
  refine ⟨⟨hs, by rw [hlaunch], fun run name hname => ?_, ?_, ?_⟩, hafter⟩
  · exact Conductor.start_of_refused hname (by rw [hlaunch]; simp)
  · rw [hlaunch, hafter.verdicts, h.verdicts]
  · rw [hlaunch, s.sequence_noting]

theorem launch_apply (h : s.Awaits id q vs given) (hguard : ∀ g ∈ q.guard, g.test.Answers)
    (hvs : ∀ v ∈ vs, v.condition.test.Answers) (hs : s.Admits id) :
    let u := (s.checked id).noting (guardNotes id q.guard s ++ verdictNotes id 0 vs s)
    Conductor.launch id s =
      if failing vs s = [] then
        (.ok (.ok true), (u.modify id Sequence.begun).noting
          [.notice (.started q.name (s.sequence id).stepCount), .began id, .moved id .started 0])
      else (.ok (.error (.invalid q.name (failing vs s))), u) := by
  have hlaunch := Conductor.launch_admitted (h.guard ▸ hguard) (h.validators ▸ hvs) hs
  simp only [h.validators, h.guard, h.name] at hlaunch
  exact hlaunch

/-- What an attempt that gets past the guard does to the sequence. -/
theorem tried (h : s.Awaits id q vs given) (hguard : ∀ g ∈ q.guard, g.test.Answers)
    (hvs : ∀ v ∈ vs, v.condition.test.Answers) (hs : s.Admits id) :
    (Conductor.launch id s).2.Awaits id q [] (given ++ answers 0 vs s) := by
  have hasked := h.checked.noting (guardNotes id q.guard s ++ verdictNotes id 0 vs s)
  rw [List.filterMap_append, filterMap_guardNotes, filterMap_verdictNotes,
    List.nil_append] at hasked
  rw [h.launch_apply hguard hvs hs]
  split
  · simpa [Entry.verdict?] using hasked.begun.noting
      [.notice (.started q.name (s.sequence id).stepCount), .began id, .moved id .started 0]
  · exact hasked

theorem examined (h : s.Awaits id q q.validators []) (hq : q.Harmless) (hs : s.Admits id) :
    s.Examines id q ∧ (Conductor.launch id s).2.Awaits id q [] (answers 0 q.validators s) := by
  have hafter := h.tried hq.guard hq.validators hs
  rw [List.nil_append] at hafter
  have hlaunch := h.launch_apply hq.guard hq.validators hs
  refine ⟨⟨hs, h.verdicts, hafter.verdicts, fun hfailed run name hname => ?_, fun hpassed => ?_⟩,
    hafter⟩
  · simp only [if_neg hfailed] at hlaunch
    rw [Conductor.start_of_refused hname (by rw [hlaunch]; simp), hlaunch]
  · simp only [if_pos hpassed] at hlaunch
    have hanswer : (Conductor.launch id s).1 = .ok (.ok true) := by rw [hlaunch]
    refine ⟨hanswer, ?_, fun _ _ _ _ => Conductor.start_of_launched hanswer⟩
    rw [hlaunch, sequence_noting, sequence_modify_self _ _ (h.checked.noting _).lt]
    rfl

theorem started (h : s.Awaits id q [] given) (hq : q.Harmless) (hs : s.Admits id) :
    s.Starts id ∧ (Conductor.launch id s).2.Awaits id q [] given := by
  have hafter := h.tried hq.guard nofun hs
  have hanswers : given ++ answers 0 [] s = given := List.append_nil given
  rw [hanswers] at hafter
  have hlaunch := h.launch_apply hq.guard nofun hs
  have hanswer : (Conductor.launch id s).1 = .ok (.ok true) := by
    rw [hlaunch]
    rfl
  exact ⟨⟨hs, hanswer, fun _ _ _ _ => Conductor.start_of_launched hanswer,
    by rw [hafter.verdicts, h.verdicts]⟩, hafter⟩

end Stage.Awaits

/-- Once they are used up, no attempt asks any validator again. -/
theorem Deeds.used {l : List (Deed × Stage)} (h : Deeds s l t) (hs : s.Awaits id q [] given)
    (hq : q.Harmless) :
    t.Awaits id q [] given ∧ ∀ u, (.tried id, u) ∈ l → u.Refuses id ∨ u.Starts id := by
  induction h with
  | rest h => exact ⟨hs.untried h, nofun⟩
  | @deed s u t l d h _ ih =>
    have hu := hs.untried h
    have hdone : (d.done u).Awaits id q [] given ∧
        (d = .tried id → u.Refuses id ∨ u.Starts id) := by
      cases d with
      | enrolled q' => exact ⟨hu.enroll q', nofun⟩
      | tried i =>
        by_cases hi : id = i
        · subst hi
          by_cases hadmits : u.Admits id
          · have hstarted := hu.started hq hadmits
            exact ⟨hstarted.2, fun _ => .inr hstarted.1⟩
          · have hrefused := hu.refused hq hadmits
            exact ⟨hrefused.2, fun _ => .inl hrefused.1⟩
        · exact ⟨hu.triesOnly hi (Conductor.launch_triesOnly i u),
            fun h => absurd (Deed.tried.inj h).symm hi⟩
    obtain ⟨hend, hlater⟩ := ih hdone.1
    refine ⟨hend, fun u' hmem => ?_⟩
    rcases List.mem_cons.mp hmem with heq | hmem
    · obtain ⟨hd, rfl⟩ := Prod.mk.inj heq
      exact hdone.2 hd.symm
    · exact hlater u' hmem

/-- From its registration on every attempt to start a sequence can be accounted for. -/
theorem Deeds.account {l : List (Deed × Stage)} (h : Deeds s l t)
    (hs : s.Awaits id q q.validators []) (hq : q.Harmless) : Account id q l t := by
  induction h with
  | rest h => exact .waiting nofun (hs.untried h)
  | @deed s u t l d h hlater ih =>
    have hu := hs.untried h
    -- an attempt that gets past the guard uses the validators up, anything else lets them wait
    by_cases hfirst : d = .tried id ∧ u.Admits id
    · obtain ⟨rfl, hadmits⟩ := hfirst
      obtain ⟨hexamines, hafter⟩ := hu.examined hq hadmits
      obtain ⟨hend, hrest⟩ := hlater.used hafter hq
      exact .checked (List.nil_append _).symm nofun hexamines hrest hend
    · have hdone : (d.done u).Awaits id q q.validators [] ∧ (d = .tried id → u.Refuses id) := by
        cases d with
        | enrolled q' => exact ⟨hu.enroll q', nofun⟩
        | tried i =>
          by_cases hi : id = i
          · subst hi
            have hrefused := hu.refused hq fun hadmits => hfirst ⟨rfl, hadmits⟩
            exact ⟨hrefused.2, fun _ => hrefused.1⟩
          · exact ⟨hu.triesOnly hi (Conductor.launch_triesOnly i u),
              fun h => absurd (Deed.tried.inj h).symm hi⟩
      have hhead : ∀ {as : List (Deed × Stage)}, (∀ u, (.tried id, u) ∈ as → u.Refuses id) →
          ∀ u', (.tried id, u') ∈ (d, u) :: as → u'.Refuses id := by
        intro as has u' hmem
        rcases List.mem_cons.mp hmem with heq | hmem
        · obtain ⟨hd, rfl⟩ := Prod.mk.inj heq
          exact hdone.2 hd.symm
        · exact has u' hmem
      cases ih hdone.1 with
      | waiting hrefused hend => exact .waiting (hhead hrefused) hend
      | checked hl hrefused hexamines hrest hend =>
        exact .checked (congrArg ((d, u) :: ·) hl) (hhead hrefused) hexamines hrest hend

/-- A number that no sequence has is not asked about either. -/
theorem Conductor.launch_nobody (h : s.sequences.length ≤ id) :
    (launch id s).2.verdicts id = s.verdicts id := by
  have hnobody := s.sequence_of_length_le h
  have hguard : ∀ g ∈ (s.sequence id).guard, g.test.Answers := hnobody ▸ nofun
  have hvalidators : ∀ v ∈ (s.sequence id).validators, v.condition.test.Answers := hnobody ▸ nofun
  have hadmits : s.Admits id := ⟨by rw [hnobody], hnobody ▸ nofun⟩
  have hlaunch := launch_admitted hguard hvalidators hadmits
  simp only [hnobody] at hlaunch
  rw [hlaunch]
  simp [failing, guardNotes, verdictNotes, Stage.verdicts_noting, Entry.verdict?]
  rfl

theorem Deeds.fresh {l : List (Deed × Stage)} (h : Deeds s l t)
    (hs : ∀ id, s.sequences.length ≤ id → s.verdicts id = []) :
    ∀ id, t.sequences.length ≤ id → t.verdicts id = [] := by
  induction h with
  | rest h =>
    intro id hid
    rw [h.verdicts, hs id (h.length ▸ hid)]
  | @deed s u t l d h _ ih =>
    have hu : ∀ id, u.sequences.length ≤ id → u.verdicts id = [] := fun id hid => by
      rw [h.verdicts, hs id (h.length ▸ hid)]
    refine ih fun id hid => ?_
    cases d with
    | enrolled q => exact hu id (by simp only [Deed.done, Stage.length_enroll] at hid; omega)
    | tried i =>
      have htries := Conductor.launch_triesOnly i u
      rw [Deed.done, htries.length] at hid
      by_cases hi : id = i
      · subst hi
        rw [Deed.done, Conductor.launch_nobody hid, hu id hid]
      · rw [Deed.done, htries.verdicts id hi, hu id hid]

end

/-- Whatever a session does is a series of enrolments and attempts to start a sequence, and between
them nobody is asked. Of the attempts on one sequence the first that finds it idle and gets past its
guard asks the validators, all of them, and no other asks any. -/
theorem validators_once (settings : Settings) (host : Host) :
    (∀ calm s, Session calm (.opening settings host) s → ∃ l, Deeds (.opening settings host) l s ∧
      ∀ id < s.sequences.length, ∃ before q u after,
        l = before ++ (.enrolled q, u) :: after ∧ u.sequences.length = id) ∧
    ∀ before q u after s, Deeds (.opening settings host) (before ++ (.enrolled q, u) :: after) s →
      q.Harmless → Account u.sequences.length q after s := by
  refine ⟨fun calm s h => ?_, fun before q u after s h hq => ?_⟩
  · obtain ⟨l, hl⟩ := h.deeds
    exact ⟨l, hl, fun id hid => hl.enrolled (Nat.zero_le id) hid⟩
  · obtain ⟨hbefore, hafter⟩ := h.split
    have hfresh := hbefore.fresh (fun _ _ => rfl) u.sequences.length (Nat.le_refl _)
    have hsequence : (u.enroll q).sequence u.sequences.length = q := by
      rw [u.sequence_enroll, if_pos rfl]
    refine hafter.account ⟨?_, ?_, ?_, ?_, hfresh⟩ hq
    · rw [Deed.done, u.length_enroll]
      omega
    all_goals rw [Deed.done, hsequence]

/-- The guard refuses the first attempt, two validators of three the second one, and the third one
starts the sequence without asking any of them. -/
theorem validators_once_used_up :
    let q : Sequence :=
      { name := "a", guard := some { test := .flag "go" }
        validators := [⟨{ test := .flag "ready" }, "not ready"⟩, ⟨{ test := .const true }, "fine"⟩,
          ⟨{ test := .not (.flag "go") }, "too late"⟩] }
    let u₀ := Stage.opening {} {}
    let u₁ := u₀.enroll q
    let s₁ := (Conductor.launch 0 u₁).2
    let u₂ : Stage := { s₁ with host := { s₁.host with flags := s₁.host.flags.put "go" true } }
    let u₃ := (Conductor.launch 0 u₂).2
    let s := (Conductor.launch 0 u₃).2
    let after : List (Deed × Stage) := [(.tried 0, u₁), (.tried 0, u₂), (.tried 0, u₃)]
    Deeds u₀ ([] ++ (.enrolled q, u₀) :: after) s ∧ q.Harmless ∧
      failing q.validators u₂ = ["not ready", "too late"] ∧ s.verdicts 0 =
        [(0, false), (1, true), (2, false)] ∧ (s.sequence 0).running = true ∧
      Account 0 q after s := by
  intro q u₀ u₁ s₁ u₂ u₃ s after
  have hdeeds : Deeds u₀ ([] ++ (.enrolled q, u₀) :: after) s :=
    .deed (.enrolled q) (.refl u₀) <| .deed (.tried 0) (.refl u₁) <|
      .deed (.tried 0) (.same rfl rfl) <| .deed (.tried 0) (.refl u₃) <| .rest (.refl s)
  have hq : q.Harmless := by
    constructor
    · rintro _ ⟨rfl⟩ s owner polls
      exact ⟨_, rfl⟩
    · simp only [q, List.forall_mem_cons]
      exact ⟨fun s owner polls => ⟨_, rfl⟩, fun s owner polls => ⟨_, rfl⟩,
        fun s owner polls => ⟨_, rfl⟩, nofun⟩
  exact ⟨hdeeds, hq, by decide +kernel, by decide +kernel, by decide +kernel,
    (validators_once {} {}).2 [] q u₀ after s hdeeds hq⟩

end Sequencer
