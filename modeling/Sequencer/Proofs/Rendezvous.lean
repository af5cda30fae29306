import Sequencer.Proofs.Ledger.Session

/-!
# Barriers meet

The board counts the arrivals that the journal tells of, as far as a word can count. A barrier
that is entered arrives once, and whenever it is ticked it answers by the arrivals so far, however
its release is remembered and whatever halts.
-/

set_option autoImplicit false

namespace Sequencer

def Entry.arrivesAt (name : String) : Entry → Bool
  | .arrived barrier => barrier == name
  | _ => false

def arrivals (name : String) (l : List Entry) : Nat := l.countP (·.arrivesAt name)

theorem arrivals_append (name : String) (l j : List Entry) :
    arrivals name (l ++ j) = arrivals name l + arrivals name j := List.countP_append

theorem arrivals_cons (name : String) {e : Entry} (he : e.arrivesAt name = false)
    (j : List Entry) : arrivals name (e :: j) = arrivals name j := by
  simp [arrivals, he]

def verdict (expected : UInt32) (arrived : Nat) : Status :=
  if expected.toNat ≤ arrived then .succeeded else .running

/-- What an entry says of a barrier, between the entries `j` before it and the entries `l` after
it. A call to enter a barrier arrives once and does nothing else but say so; a tick is answered by
the arrivals so far. -/
def Entry.Agrees (s : Stage) (l : List Entry) (e : Entry) (j : List Entry) : Prop :=
  match e with
  | .called σ .enter => ∀ name expected, s.step? σ = some (.barrier name expected) →
    ∃ l' n, l = l' ++ [.returned σ none, .notice n, .arrived name]
  | .called σ (.tick _) => ∀ name expected, s.step? σ = some (.barrier name expected) →
    ∃ l' n, l = l' ++ .returned σ (some (verdict expected (arrivals name j))) :: n ∧
      ∀ e ∈ n, ∃ m, e = .notice m
  | .returned σ (some status) => ∀ name expected, s.step? σ = some (.barrier name expected) →
    status = verdict expected (arrivals name j)
  | _ => True

theorem Entry.Agrees.mono {s : Stage} {l j : List Entry} {e : Entry} (h : e.Agrees s l j)
    (l' : List Entry) : e.Agrees s (l' ++ l) j := by
  cases e with
  | called σ c =>
    cases c with
    | enter =>
      intro name expected hσ
      obtain ⟨l₁, n, rfl⟩ := h name expected hσ
      exact ⟨l' ++ l₁, n, by rw [List.append_assoc]⟩
    | tick dt =>
      intro name expected hσ
      obtain ⟨l₁, n, rfl, hn⟩ := h name expected hσ
      exact ⟨l' ++ l₁, n, by rw [List.append_assoc], hn⟩
    | exit => trivial
  | returned σ r =>
    cases r with
    | some status => exact h
    | none => trivial
  | _ => trivial

def Entry.isSilent : Entry → Bool
  | .called _ c => match c with
    | .exit => true
    | _ => false
  | .returned _ r => r.isNone
  | _ => true

theorem Entry.agrees_of_isSilent {e : Entry} (h : e.isSilent = true) (s : Stage)
    (l j : List Entry) : e.Agrees s l j := by
  cases e with
  | called σ c =>
    cases c with
    | exit => trivial
    | _ => simp [isSilent] at h
  | returned σ r =>
    cases r with
    | none => trivial
    | some status => simp [isSilent] at h
  | _ => trivial

theorem Entry.isSilent_of_isOrdinary {e : Entry} (h : e.isOrdinary = true) :
    e.isSilent = true := by
  cases e <;> first | rfl | simp [isOrdinary] at h

theorem Entry.arrivesAt_of_isOrdinary {e : Entry} (h : e.isOrdinary = true) (name : String) :
    e.arrivesAt name = false := by
  cases e <;> first | rfl | simp [isOrdinary] at h

def Stage.Counted (s : Stage) : Prop :=
  ∀ name, (s.barriers.count name).toNat = min (arrivals name s.journal) 4294967295

def Agreeing (s t : Stage) : Prop := ∃ l, t.journal = l ++ s.journal ∧
  ∀ u, t.Later u → ∀ l₁ e l₂, l = l₁ ++ e :: l₂ → e.Agrees u l₁ (l₂ ++ s.journal)

def Tallied (_ : Bool) (s t : Stage) : Prop := s.Counted → t.Counted ∧ Agreeing s t

def ReleasedRightly : BarrierFact := fun name expected b p =>
  p.released = true → expected ≤ b.count name

namespace Agreeing

variable {s t u : Stage}

theorem trans (hl : t.Later u) (h : Agreeing s t) (h' : Agreeing t u) : Agreeing s u := by
  obtain ⟨l, hj, ha⟩ := h
  obtain ⟨l', hj', ha'⟩ := h'
  refine ⟨l' ++ l, by rw [hj', hj, List.append_assoc], fun v hv l₁ e l₂ heq => ?_⟩
  rcases List.append_eq_append_iff.mp heq with ⟨m, rfl, hm⟩ | ⟨m, rfl, hm⟩
  · exact (ha v (hl.trans hv) m e l₂ hm).mono l'
  · rcases List.cons_eq_append_iff.mp hm with ⟨rfl, hm⟩ | ⟨m', rfl, rfl⟩
    · have hlast := (ha v (hl.trans hv) [] e l₂ hm.symm).mono l₁
      rwa [List.append_nil] at hlast
    · rw [List.append_assoc, ← hj]
      exact ha' v hv l₁ e m' rfl

theorem of_eq (h : t.journal = s.journal) : Agreeing s t :=
  ⟨[], h, fun _ _ _ _ _ heq => absurd heq (by simp)⟩

theorem note {e : Entry} (h : ∀ u, (s.note e).Later u → e.Agrees u [] s.journal) :
    Agreeing s (s.note e) := by
  refine ⟨[e], rfl, fun u hu l₁ e' l₂ heq => ?_⟩
  rcases List.cons_eq_append_iff.mp heq with ⟨rfl, heq⟩ | ⟨m, rfl, heq⟩
  · obtain ⟨rfl, rfl⟩ := List.cons.inj heq
    exact h u hu
  · exact absurd heq (by simp)

theorem silent {e : Entry} (h : e.isSilent = true) : Agreeing s (s.note e) :=
  note fun _ _ => Entry.agrees_of_isSilent h _ _ _

end Agreeing

namespace Stage.Counted

variable {s t : Stage}

theorem of_same (h : s.Counted) (hb : t.barriers = s.barriers)
    (hj : ∀ name, arrivals name t.journal = arrivals name s.journal) : t.Counted := by
  intro name
  rw [hb, hj]
  exact h name

theorem note (h : s.Counted) {e : Entry} (he : ∀ name, e.arrivesAt name = false) :
    (s.note e).Counted := h.of_same rfl fun name => arrivals_cons name (he name) _

theorem arrive (h : s.Counted) (name : String) : (s.arrive name).Counted := by
  intro other
  have hj : arrivals other (s.arrive name).journal =
      arrivals other s.journal + if name = other then 1 else 0 := by
    by_cases hn : name = other <;> simp [Stage.arrive, arrivals, Entry.arrivesAt, hn]
  rw [hj]
  by_cases hn : name = other
  · subst hn
    rw [show (s.arrive name).barriers.count name = Board.bump (s.barriers.count name) from
      Board.count_arrive_self _ _, Board.toNat_bump, h name, if_pos rfl]
    omega
  · rw [show (s.arrive name).barriers.count other = s.barriers.count other from
      Board.count_arrive_ne _ (Ne.symm hn), h other, if_neg hn]
    rfl

/-- The count says whether enough have arrived, also when it is full. -/
theorem verdict_eq (h : s.Counted) (name : String) (expected : UInt32) :
    verdict expected (arrivals name s.journal) =
      if s.barriers.count name ≥ expected then .succeeded else .running := by
  have hc := h name
  have he := expected.toNat_lt
  have hiff : s.barriers.count name ≥ expected ↔ expected.toNat ≤ arrivals name s.journal := by
    rw [ge_iff_le, UInt32.le_iff_toNat_le, hc]
    omega
  by_cases hle : expected.toNat ≤ arrivals name s.journal
  · rw [verdict, if_pos hle, if_pos (hiff.mpr hle)]
  · rw [verdict, if_neg hle, if_neg fun hge => hle (hiff.mp hge)]

end Stage.Counted

theorem BarrierProgress.verdict_eq {p : BarrierProgress} {name : String} {expected : UInt32}
    {b : Board} (h : ReleasedRightly name expected b p) :
    p.verdict (b.count name) expected =
      if b.count name ≥ expected then .succeeded else .running := by
  by_cases hr : p.released = true
  · have hle : b.count name ≥ expected := h hr
    simp [verdict, hr, hle]
  · simp [verdict, hr]

/-- A step that stands at a site stands there later. -/
theorem Stage.At.step?_later {s u : Stage} {σ : Site} {x y : Step Command} (h : s.At σ x)
    (hl : s.Later u) (hy : u.step? σ = some y) : y = x := by
  rcases h.later hl with hroot | hx
  · rw [Stage.step?_of_root_none hroot] at hy
    exact absurd hy (by simp)
  · rw [hx] at hy
    exact (Option.some.inj hy).symm

theorem Step.isBarrier_of_eq {x : Step Command} {name : String} {expected : UInt32}
    (h : .barrier name expected = x) : x.isBarrier = true := by
  rw [← h]
  rfl

theorem Stage.Later.note (s : Stage) (e : Entry) : s.Later (s.note e) := .of_same rfl rfl

namespace Agreeing

variable {s : Stage} {σ : Site} {name : String} {expected : UInt32}

theorem called {x : Step Command} {c : Call} (hat : s.At σ x)
    (hc : x.isBarrier = true → c = .exit) : Agreeing s (s.note (.called σ c)) := by
  refine note fun u hu => ?_
  have hnone : c ≠ .exit → ∀ name expected, u.step? σ ≠ some (.barrier name expected) :=
    fun hne name expected hσ =>
      hne (hc (Step.isBarrier_of_eq (hat.step?_later ((Stage.Later.note s _).trans hu) hσ)))
  cases c with
  | enter => exact fun name expected hσ => absurd hσ (hnone (by simp) name expected)
  | tick dt => exact fun name expected hσ => absurd hσ (hnone (by simp) name expected)
  | exit => trivial

theorem returned {x : Step Command} {r : Option Status} (hat : s.At σ x)
    (hr : x.isBarrier = true → r = none) : Agreeing s (s.note (.returned σ r)) := by
  refine note fun u hu => ?_
  cases r with
  | none => trivial
  | some status =>
    intro name expected hσ
    have hx := hat.step?_later ((Stage.Later.note s _).trans hu) hσ
    exact absurd (hr (Step.isBarrier_of_eq hx)) (by simp)

/-- An entry that looks ahead to those that come right after it. -/
theorem first {t : Stage} {e : Entry} {l : List Entry} (hj : t.journal = l ++ e :: s.journal)
    (he : ∀ u, t.Later u → e.Agrees u l s.journal) (h : Agreeing (s.note e) t) :
    Agreeing s t := by
  obtain ⟨l', hl', ha⟩ := h
  obtain rfl : l' = l := List.append_cancel_right (hl'.symm.trans hj)
  refine ⟨l' ++ [e], by rw [hj]; simp, fun u hu l₁ e' l₂ heq => ?_⟩
  rcases List.append_eq_append_iff.mp heq with ⟨m, rfl, hm⟩ | ⟨m, rfl, hm⟩
  · rcases List.cons_eq_append_iff.mp hm with ⟨rfl, hm⟩ | ⟨m', rfl, hm⟩
    · obtain ⟨rfl, rfl⟩ := List.cons.inj hm
      rw [List.append_nil]
      exact he u hu
    · exact absurd hm (by simp)
  · rcases List.cons_eq_append_iff.mp hm with ⟨rfl, hm⟩ | ⟨m', rfl, rfl⟩
    · obtain ⟨rfl, rfl⟩ := List.cons.inj hm
      have hself := he u hu
      rwa [List.append_nil] at hself
    · rw [List.append_assoc]
      exact ha u hu l₁ e' m' rfl

theorem entering (n : Notice) (hat : s.At σ (.barrier name expected)) :
    Agreeing s (s.entering σ name n) := by
  apply first (l := [.returned σ none, .notice n, .arrived name]) rfl
  · intro u hu name' expected' hσ
    obtain ⟨rfl, -⟩ :=
      Step.barrier.inj (hat.step?_later ((Ledger.later_entering s σ name n).trans hu) hσ)
    exact ⟨[], n, rfl⟩
  · have harrive : Agreeing (s.note (.called σ .enter)) ((s.note (.called σ .enter)).arrive name) :=
      silent (e := .arrived name) rfl
    have hsay := harrive.trans (Stage.Later.note _ _) (silent (e := .notice n) rfl)
    exact hsay.trans (Stage.Later.note _ _) (silent rfl)

theorem answering (dt : Float32) (said : Option Notice) (hat : s.At σ (.barrier name expected)) :
    Agreeing s (s.answering σ dt said (verdict expected (arrivals name s.journal))) := by
  let status := verdict expected (arrivals name s.journal)
  let v := (s.note (.called σ (.tick dt))).saying said
  obtain ⟨n, hn, hnotices, harrivals⟩ : ∃ n, v.journal = n ++ .called σ (.tick dt) :: s.journal ∧
      (∀ e ∈ n, ∃ m, e = .notice m) ∧ arrivals name v.journal = arrivals name s.journal := by
    cases said with
    | none => exact ⟨[], rfl, by simp, arrivals_cons name rfl _⟩
    | some m => exact ⟨[.notice m], rfl, by simp, by
        rw [show v.journal = .notice m :: .called σ (.tick dt) :: s.journal from rfl,
          arrivals_cons name rfl, arrivals_cons name rfl]⟩
  have hlater : s.Later (s.answering σ dt said status) := by
    obtain ⟨hq, hb, -⟩ := Ledger.answering_same s σ dt said status
    exact .of_same hq hb
  have hlaw : ∀ u, (s.answering σ dt said status).Later u → ∀ name' expected',
      u.step? σ = some (.barrier name' expected') → name' = name ∧ expected' = expected :=
    fun u hu name' expected' hσ => Step.barrier.inj (hat.step?_later (hlater.trans hu) hσ)
  apply first (l := .returned σ (some status) :: n)
  · show .returned σ (some status) :: v.journal = _
    rw [hn]
    rfl
  · intro u hu name' expected' hσ
    obtain ⟨rfl, rfl⟩ := hlaw u hu name' expected' hσ
    exact ⟨[], n, rfl, hnotices⟩
  · have hsaid : Agreeing (s.note (.called σ (.tick dt))) v := by
      cases said with
      | none => exact of_eq rfl
      | some m => exact silent rfl
    refine hsaid.trans (Stage.Later.note v _) (note fun u hu name' expected' hσ => ?_)
    obtain ⟨rfl, rfl⟩ := hlaw u hu name' expected' hσ
    rw [harrivals]

end Agreeing

/-- Barriers that are released rightly keep a tally. -/
theorem tally : Ledger ReleasedRightly Tallied where
  fresh _ _ _ h := absurd h (by simp)
  later hb h hr := UInt32.le_trans (h hr) (hb _)
  entered _ _ _ h := of_decide_eq_true h
  released := by
    intro name expected b p h hr _
    rcases Bool.or_eq_true_iff.mp hr with hr | hr
    · exact h hr
    · exact of_decide_eq_true hr
  waiting _ _ h := h
  same hj hb hc := ⟨hc.of_same hb fun _ => by rw [hj], .of_eq hj⟩
  trans hl h h' hc := ⟨(h' (h hc).1).1, (h hc).2.trans hl (h' (h hc).1).2⟩
  halted h := h
  note s e he hc := ⟨hc.note (Entry.arrivesAt_of_isOrdinary he),
    .silent (Entry.isSilent_of_isOrdinary he)⟩
  arrive s name hc := ⟨hc.arrive name, Agreeing.silent (e := .arrived name) rfl⟩
  called hat hc hs := ⟨hs.note fun _ => rfl, .called hat hc⟩
  returned hat hr hs := ⟨hs.note fun _ => rfl, .returned hat hr⟩
  entering := by
    intro s σ name expected n hat hs
    have hcalled : (s.note (.called σ .enter)).Counted := hs.note fun _ => rfl
    exact ⟨((hcalled.arrive name).note fun _ => rfl).note fun _ => rfl, .entering n hat⟩
  answering := by
    intro s σ name expected p dt said hat hp hs
    have hstatus : p.verdict (s.barriers.count name) expected =
        verdict expected (arrivals name s.journal) := by
      rw [BarrierProgress.verdict_eq hp, hs.verdict_eq]
    rw [hstatus]
    have hcalled : (s.note (.called σ (.tick dt))).Counted := hs.note fun _ => rfl
    have hsaid : ((s.note (.called σ (.tick dt))).saying said).Counted := by
      cases said with
      | none => exact hcalled
      | some n => exact hcalled.note fun _ => rfl
    exact ⟨hsaid.note fun _ => rfl, .answering dt said hat⟩

theorem tally_letsTurns : LetsTurns Tallied :=
  fun _ _ _ hc => ⟨hc.note fun _ => rfl, .silent rfl⟩

/-- After every session the board counts what the journal tells of. -/
theorem Session.counted {calm : Bool} {settings : Settings} {host : Host} {s : Stage}
    (h : Session calm (.opening settings host) s) : s.Counted :=
  ((h.fair tally tally_letsTurns (Stage.opening_holds _ settings host)).books fun _ => rfl).1

/-- Whatever sequences and callbacks do, and wherever a run halts: a count is the number of
arrivals, up to the largest word; it only grows, by the arrivals at its own name. A barrier that
is entered arrives exactly once. A barrier that is ticked succeeds if and only if as many as it
expects have arrived by then, and runs on otherwise: so nobody passes too early, and everybody
passes at the first tick after the last arrival. -/
theorem rendezvous_exact {calm : Bool} {settings : Settings} {host : Host} {s : Stage}
    (h : Session calm (.opening settings host) s) :
    (∀ name, (s.barriers.count name).toNat = min (arrivals name s.journal) 4294967295) ∧
    (∀ l e j, s.journal = l ++ e :: j → e.Agrees s l j) ∧
    ∀ calm' t, Session calm' s t → ∃ l, t.journal = l ++ s.journal ∧ ∀ name,
      (t.barriers.count name).toNat =
        min ((s.barriers.count name).toNat + arrivals name l) 4294967295 := by
  have hopening : (Stage.opening settings host).Counted := fun _ => rfl
  have hfair := h.fair tally tally_letsTurns (Stage.opening_holds _ settings host)
  obtain ⟨hcounted, l', hl', hagrees⟩ := hfair.books hopening
  rw [show (Stage.opening settings host).journal = [] from rfl, List.append_nil] at hl'
  refine ⟨hcounted, fun l e j hj => ?_, fun calm' t ht => ?_⟩
  · have he := hagrees s (.refl s) l e j (hl'.symm.trans hj)
    rwa [show (Stage.opening settings host).journal = [] from rfl, List.append_nil] at he
  · obtain ⟨hcounted', l, hl, -⟩ := (ht.fair tally tally_letsTurns hfair.holds).books hcounted
    refine ⟨l, hl, fun name => ?_⟩
    rw [hcounted' name, hcounted name, hl, arrivals_append]
    omega

/-- Two sequences that come to a barrier in one frame: the second passes at once, the first one
was ticked before that and still waits. -/
theorem rendezvous_exact_met :
    let gate : List (Step Command) := [.barrier "gate" 2]
    let l : List Command := [.register { name := "a", steps := gate },
      .register { name := "b", steps := gate }, .start "a", .start "b", .tick 1 none]
    let s := ((Stage.opening { barrierWarnAfter := none } {}).run false l).2
    Session true (.opening { barrierWarnAfter := none } {}) s ∧
      ((s.sequence 0).current, (s.sequence 1).current) = (0, 1) ∧
      (s.barriers.count "gate").toNat = min (arrivals "gate" s.journal) 4294967295 ∧
      ∀ l e j, s.journal = l ++ e :: j → e.Agrees s l j := by
  intro gate l s
  have hcalm : (Stage.opening { barrierWarnAfter := none } {}).calmly l = true := by
    decide +kernel
  have h : Session true (.opening { barrierWarnAfter := none } {}) s :=
    hcalm ▸ Session.run false l (.opening { barrierWarnAfter := none } {})
  exact ⟨h, by decide +kernel, (rendezvous_exact h).1 "gate", (rendezvous_exact h).2.1⟩

end Sequencer
