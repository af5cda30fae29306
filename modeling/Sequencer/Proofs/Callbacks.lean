import Sequencer.Proofs.Moments

/-!
# The callbacks of a run balance

A run is opened by a start or by a restore of an idle sequence, and it is closed when its end is
told: by a stop or a removal, or by a turn that finds no step left. Callbacks may start, stop or
remove the very sequence whose end they are told, so operations nest in each other's callbacks;
every entry about a run is traced back to the moment on which it was noted.
-/

set_option autoImplicit false

namespace Sequencer

open Site (Nowhere Within)

namespace Entry

def opensRun (id : Nat) : Entry → Bool
  | .began i => i == id
  | .restored i wasRunning => i == id && !wasRunning
  | _ => false

def closesRun (id : Nat) : Entry → Bool
  | .notified i _ .completed _ => i == id
  | .notified i _ .stopped _ => i == id
  | _ => false

def isIncidental : Entry → Bool
  | .began _ => false
  | .restored .. => false
  | .notified .. => false
  | _ => true

theorem isIncidental_of_isRemark {e : Entry} (h : e.isRemark = true) : e.isIncidental = true := by
  cases e <;> first | rfl | simp [isRemark] at h

end Entry

def Errand.hook? : Errand → Option Hook
  | .driving .. => none
  | .stopping _ => some .stopped
  | .removing _ => some .stopped
  | .completing _ => some .completed

/-- How an entry about a run came into the journal, between the entries `j` before it and the
entries `l` after it. A run that begins is told at once; one that ends is told by the operation
that ends it. -/
def Entry.Arises (l : List Entry) (e : Entry) (j : List Entry) : Prop :=
  match e with
  | .began id => (∃ (m : Moment) (n : Notice), m.Reached ∧
      (m.stage.sequence id).running = false ∧ j = .notice n :: m.stage.journal) ∧
      ∃ l' name b, l = l' ++ [.notified id name .started b, .moved id .started 0]
  | .restored id wasRunning => ∃ m : Moment, m.Reached ∧ j = m.stage.journal ∧
      wasRunning = (m.stage.sequence id).running
  | .notified id _ .started _ => ∃ j', j = .moved id .started 0 :: .began id :: j'
  | .notified id name hook b => ∃ (m : Moment) (e : Errand) (t : Stage), m.Reached ∧
      e.Begins m.stage t ∧ e.id = id ∧ e.hook? = some hook ∧
      t.journal = .notified id name hook b :: j
  | _ => True

namespace Entry

variable {l j : List Entry} {e : Entry}

theorem arises_of_isIncidental (h : e.isIncidental = true) : e.Arises l j := by
  cases e <;> trivial

theorem Arises.mono (h : e.Arises l j) (l' : List Entry) : e.Arises (l' ++ l) j := by
  cases e with
  | began id =>
    obtain ⟨hm, l₁, name, b, rfl⟩ := h
    exact ⟨hm, l' ++ l₁, name, b, by rw [List.append_assoc]⟩
  | notified id name hook b => cases hook <;> exact h
  | restored id was => exact h
  | _ => trivial

end Entry

def Accounts (j j' : List Entry) : Prop :=
  ∃ l, j' = l ++ j ∧ ∀ l₁ e l₂, l = l₁ ++ e :: l₂ → e.Arises l₁ (l₂ ++ j)

namespace Accounts

variable {i j k : List Entry}

theorem trans (h : Accounts i j) (h' : Accounts j k) : Accounts i k := by
  obtain ⟨l, rfl, hl⟩ := h
  obtain ⟨l', rfl, hl'⟩ := h'
  refine ⟨l' ++ l, by rw [List.append_assoc], fun l₁ e l₂ heq => ?_⟩
  rcases List.append_eq_append_iff.mp heq with ⟨m, rfl, hm⟩ | ⟨m, rfl, hm⟩
  · exact (hl m e l₂ hm).mono l'
  · rcases List.cons_eq_append_iff.mp hm with ⟨rfl, hm⟩ | ⟨m', rfl, rfl⟩
    · have he := (hl [] e l₂ hm.symm).mono l₁
      rwa [List.append_nil] at he
    · rw [List.append_assoc]
      exact hl' l₁ e m' rfl

theorem plain {l : List Entry} (hl : ∀ e ∈ l, e.isIncidental = true) : Accounts j (l ++ j) :=
  ⟨l, rfl, fun l₁ e l₂ heq => Entry.arises_of_isIncidental (hl e (by rw [heq]; simp))⟩

theorem refl (j : List Entry) : Accounts j j := plain (l := []) (by simp)

theorem of_eq (h : k = j) : Accounts j k := h ▸ refl j

theorem cons (h : Accounts j k) {e : Entry} (he : e.Arises [] k) : Accounts j (e :: k) := by
  refine h.trans ⟨[e], rfl, fun l₁ e' l₂ heq => ?_⟩
  rcases List.cons_eq_append_iff.mp heq with ⟨rfl, heq⟩ | ⟨m, -, heq⟩
  · obtain ⟨rfl, rfl⟩ := List.cons.inj heq
    exact he
  · exact absurd heq (by simp)

theorem note (h : Accounts j k) {e : Entry} (he : e.isIncidental = true) : Accounts j (e :: k) :=
  h.cons (Entry.arises_of_isIncidental he)

end Accounts

section

variable {pending : List Errand} {s t : Stage} {id : Nat}

/-- A start notes the beginning of the run, the cursor and the callback, one after the other. -/
theorem Accounts.starting (hs : Moment.Reached ⟨pending, s⟩)
    (hr : (s.sequence id).running = false) (n : Notice) :
    Accounts s.journal (s.starting id n).journal := by
  have hj : ∃ name b, (s.starting id n).journal = [.notified id name .started b,
      .moved id .started 0, .began id, .notice n] ++ s.journal := by
    rw [Stage.starting, Stage.journal_notify, Stage.journal_enlist]
    exact ⟨_, _, rfl⟩
  obtain ⟨name, b, hj⟩ := hj
  refine ⟨_, hj, fun l₁ e l₂ heq => ?_⟩
  rcases l₁ with _ | ⟨e₁, _ | ⟨e₂, _ | ⟨e₃, _ | ⟨e₄, l₁⟩⟩⟩⟩
  · obtain ⟨rfl, rfl⟩ := List.cons.inj heq
    exact ⟨_, rfl⟩
  · simp only [List.cons_append, List.nil_append, List.cons.injEq] at heq
    obtain ⟨-, rfl, -⟩ := heq
    trivial
  · simp only [List.cons_append, List.nil_append, List.cons.injEq] at heq
    obtain ⟨rfl, rfl, rfl, rfl⟩ := heq
    exact ⟨⟨⟨pending, s⟩, n, hs, hr, rfl⟩, [], name, b, rfl⟩
  · simp only [List.cons_append, List.nil_append, List.cons.injEq] at heq
    obtain ⟨-, -, -, rfl, -⟩ := heq
    trivial
  · simp at heq

theorem Accounts.restoring (hs : Moment.Reached ⟨pending, s⟩) (id index : Nat) :
    Accounts s.journal (s.restoring id index).journal := by
  have he : (Entry.restored id (s.sequence id).running).Arises [] s.journal :=
    ⟨⟨pending, s⟩, hs, rfl, rfl⟩
  rw [Stage.restoring, Stage.journal_enlist]
  exact ((refl s.journal).cons he).note rfl

/-- The end of a run is told by the operation that ends it. -/
theorem Accounts.begins {e : Errand} (hs : Moment.Reached ⟨pending, s⟩) (he : e.Begins s t) :
    Accounts s.journal t.journal := by
  cases he with
  | driving _ _ _ => exact (refl s.journal).note rfl
  | @stopping _ name id n hn hr =>
    apply ((refl s.journal).note (e := .notice n) rfl).cons
    exact ⟨⟨pending, s⟩, .stopping id, _, hs, .stopping n hn hr, rfl, rfl, rfl⟩
  | @removing _ name id n hn hr =>
    apply ((refl s.journal).note (e := .notice n) rfl).cons
    exact ⟨⟨pending, s⟩, .removing id, _, hs, .removing n hn hr, rfl, rfl, rfl⟩
  | @completing _ id n hd hc =>
    apply (((refl s.journal).note (e := .turn id .completed) rfl).note (e := .notice n) rfl).cons
    exact ⟨⟨pending, s⟩, .completing id, _, hs, .completing n hd hc, rfl, rfl, rfl⟩

theorem Accounts.afterPlay (s : Stage) (id : Nat) (q : Sequence) (part : Part)
    (r : Except Halt Status) : Accounts s.journal (s.afterPlay id q part r).journal := by
  cases r with
  | error e => exact refl s.journal
  | ok status =>
    simp only [Stage.afterPlay, Stage.advancing]
    split
    · exact ((refl s.journal).note rfl).note rfl
    · exact (refl s.journal).note rfl

theorem Accounts.ends {e : Errand} (he : e.Ends s t) : Accounts s.journal t.journal := by
  cases he with
  | driven _ id q part p status => rw [Stage.journal_sweep]; exact .afterPlay s id q _ _
  | broken _ id q part p h => exact .afterPlay s id q _ _
  | stopped _ id => exact (refl s.journal).note rfl
  | removed _ id => exact refl s.journal
  | completed _ id => exact .of_eq (s.journal_sweep id)
  | abandoned => exact refl s.journal

theorem Accounts.then_if {u : Stage} {calm : Bool} (h : Accounts s.journal t.journal)
    (h' : Accounts t.journal u.journal) :
    Accounts s.journal (if calm then u else t).journal := by
  cases calm with
  | true => exact h.trans h'
  | false => exact h

/-- What user code does on a moment that was reached is accounted for, down to the operations it
begins and what user code does while they wait. -/
theorem Leads.accounts {own : Site → Prop} {calm : Bool} (h : Leads own calm s t)
    (hs : Moment.Reached ⟨pending, s⟩) (hw : ∀ σ, own σ → calledFrom pending σ ∨ σ.root = none) :
    Accounts s.journal t.journal := by
  induction h generalizing pending with
  | aside h =>
    obtain ⟨l, hl, hr⟩ := h.journal
    rw [hl]
    exact .plain fun e he => e.isIncidental_of_isRemark (hr e he)
  | halt _ ih => exact ih hs hw
  | trans h _ ih ih' => exact (ih hs hw).trans (ih' (hs.course h hw) hw)
  | widen hw' _ ih =>
    exact ih hs fun σ hσ => (hw' σ hσ).elim (hw σ) .inr
  | called s c _ => exact (Accounts.refl s.journal).note rfl
  | returned s r _ => exact (Accounts.refl s.journal).note rfl
  | held s h _ => exact .refl s.journal
  | registered resolve o _ => exact .of_eq rfl
  | registeredHeld _ _ => exact .of_eq rfl
  | checked s id => exact .of_eq rfl
  | paused s id f => exact .of_eq rfl
  | started n _ hr => exact .starting hs hr n
  | @reset own s name id _ => exact (Accounts.refl s.journal).note rfl
  | restored index _ => exact .restoring hs _ index
  | @stoppedIdle own s name id _ _ => exact (Accounts.refl s.journal).note rfl
  | @stopped own calm s t name id n hn hr _ ih =>
    have hb : Errand.Begins (.stopping id) s (s.ending id .stopped n) := .stopping n hn hr
    have ht := (Accounts.begins hs hb).trans (ih (hs.step (.begins hb)) hw)
    exact ht.then_if (u := t.dropping id) (.ends (.stopped t id))
  | removedIdle _ _ => exact .of_eq rfl
  | @removed own calm s t name id n hn hr _ ih =>
    have hb : Errand.Begins (.removing id) s ((s.unregister name).ending id .stopped n) :=
      .removing n hn hr
    have ht := (Accounts.begins hs hb).trans (ih (hs.step (.begins hb)) hw)
    exact ht.then_if (u := t.delist id) (.ends (.removed t id))
  | @passed own s id _ => exact (Accounts.refl s.journal).note rfl
  | @idle own s id _ _ =>
    rw [Stage.journal_sweep]
    exact (Accounts.refl s.journal).note rfl
  | @completed own calm s t id n hd hc _ ih =>
    have hb : Errand.Begins (.completing id) s
        ((s.note (.turn id .completed)).ending id .completed n) := .completing n hd hc
    have ht := (Accounts.begins hs hb).trans (ih (hs.step (.begins hb)) hw)
    exact ht.then_if (u := t.sweep id) (.ends (.completed t id))
  | @busy own s id _ _ _ =>
    rw [Stage.journal_sweep]
    exact (Accounts.refl s.journal).note rfl
  | @driven own s t id part run dt r p hd hb hp _ _ _ _ ih =>
    have hlent : Errand.Begins (.driving id (s.sequence id) part) s (s.lending id) :=
      .driving hd hb hp
    have hst := (Accounts.begins hs hlent).trans (ih (hs.step (.begins hlent)) fun σ hσ => .inl hσ)
    have hback := hst.trans (.afterPlay t id (s.sequence id) ⟨part.step, p⟩ r)
    exact hback.then_if (.ends (.completed _ id))

end

/-- Every entry about a run is accounted for, at every moment. -/
theorem Moment.Reached.accounts {m : Moment} (h : m.Reached) : Accounts [] m.stage.journal := by
  obtain ⟨settings, host, h⟩ := h
  induction h with
  | refl => exact .refl []
  | @step k m hk h ih =>
    have hr : k.Reached := ⟨settings, host, hk⟩
    cases h with
    | course hl => exact ih.trans (hl.accounts hr fun σ hσ => .inl hσ)
    | begins he => exact ih.trans (.begins hr he)
    | ends he => exact ih.trans (.ends he)

/-- Whoever is told of the end of a run was running when the operation began. -/
theorem Errand.Begins.running {e : Errand} {s t : Stage} (h : e.Begins s t) :
    (s.sequence e.id).running = true := by
  cases h with
  | driving hd _ _ => exact hd.running
  | stopping n _ hr => exact hr
  | removing n _ hr => exact hr
  | completing n hd _ => exact hd.running

/-- Up to the callback, the operation has noted nothing about runs. -/
theorem Errand.Begins.before {e : Errand} {s t : Stage} (h : e.Begins s t) {id : Nat}
    {name : String} {hook : Hook} {b : Bool} {j : List Entry}
    (hj : t.journal = .notified id name hook b :: j) (r : Record) :
    Record.replay id j r = Record.replay id s.journal r := by
  cases h with
  | driving _ _ _ => exact absurd (List.cons.inj hj).1 (by simp)
  | stopping n _ _ =>
    obtain rfl := (List.cons.inj hj).2
    rfl
  | removing n _ _ =>
    obtain rfl := (List.cons.inj hj).2
    rfl
  | completing n _ _ =>
    obtain rfl := (List.cons.inj hj).2
    rfl

theorem Moment.Reached.running {m : Moment} (h : m.Reached) (id : Nat) :
    (m.stage.sequence id).running = (Record.replay id m.stage.journal {}).running := by
  rw [← h.kept.chronicled.tracked id]
  rfl

/-- An entry opens a run of an idle sequence, closes one of a running sequence, or leaves the
sequence running or idle as it was. -/
theorem Entry.Arises.turns {l j : List Entry} {e : Entry} (h : e.Arises l j) (id : Nat) :
    (e.opensRun id).toNat + (Record.replay id j {}).running.toNat =
      (e.closesRun id).toNat + (Record.replay id (e :: j) {}).running.toNat := by
  rw [Record.replay_cons]
  cases e with
  | began i =>
    obtain ⟨⟨m, n, hm, hr, rfl⟩, -⟩ := h
    rw [hm.running] at hr
    by_cases hi : i = id
    · subst hi
      simp [opensRun, closesRun, Record.after, hr]
    · simp [opensRun, closesRun, Record.after, hi]
  | restored i was =>
    obtain ⟨m, hm, rfl, rfl⟩ := h
    by_cases hi : i = id
    · subst hi
      rw [hm.running]
      cases hr : (Record.replay i m.stage.journal {}).running <;>
        simp [opensRun, closesRun, Record.after]
    · simp [opensRun, closesRun, Record.after, hi]
  | notified i name hook b =>
    cases hook with
    | started => simp [opensRun, closesRun, Record.after]
    | completed =>
      obtain ⟨m, e, t, hm, hb, rfl, -, hj⟩ := h
      have hr := hb.running
      rw [hm.running, ← hb.before hj] at hr
      by_cases hi : e.id = id
      · subst hi
        simp [opensRun, closesRun, Record.after, hr]
      · simp [opensRun, closesRun, Record.after, hi]
    | stopped =>
      obtain ⟨m, e, t, hm, hb, rfl, -, hj⟩ := h
      have hr := hb.running
      rw [hm.running, ← hb.before hj] at hr
      by_cases hi : e.id = id
      · subst hi
        simp [opensRun, closesRun, Record.after, hr]
      · simp [opensRun, closesRun, Record.after, hi]
  | moved i m c =>
    have hr : ((Record.replay id j {}).after id (.moved i m c)).running =
        (Record.replay id j {}).running := by
      cases m <;> simp only [Record.after] <;> split <;> rfl
    rw [hr]
    rfl
  | turn i τ =>
    have hr : ((Record.replay id j {}).after id (.turn i τ)).running =
        (Record.replay id j {}).running := by
      cases τ <;> simp only [Record.after]
      split <;> rfl
    rw [hr]
    rfl
  | _ => rfl

/-- Over any stretch of the journal that is accounted for, runs opened and closed differ by
whether the sequence runs. -/
theorem Accounts.balance {J : List Entry} (h : Accounts [] J) (id : Nat) (l j : List Entry)
    (hj : J = l ++ j) : j.countP (Entry.opensRun id) =
      j.countP (Entry.closesRun id) + (Record.replay id j {}).running.toNat := by
  obtain ⟨J', rfl, hJ⟩ := h
  rw [List.append_nil] at hj
  induction j generalizing l with
  | nil => rfl
  | cons e j ih =>
    have ih := ih (l ++ [e]) (by rw [hj]; simp)
    have he := (hJ l e j hj).turns id
    rw [List.append_nil] at he
    have hcount : ∀ p : Entry → Bool, (e :: j).countP p = (p e).toNat + j.countP p := fun p => by
      rw [List.countP_cons]
      cases p e <;> simp [Nat.add_comm]
    rw [hcount, hcount]
    omega

namespace Conductor

variable {s t : Stage}

/-- An attempt to start that fails leaves only remarks; one that succeeds notes the beginning of
the run after them. -/
theorem launch_tells {id : Nat} {r : Except Halt (Except Refusal Bool)}
    (h : launch id s = (r, t)) : ∃ j, (∀ e ∈ j, e.isRemark = true) ∧
      ((r ≠ .ok (.ok true) ∧ t.journal = j ++ s.journal) ∨
        (r = .ok (.ok true) ∧ (s.sequence id).running = false ∧
          (t.sequence id).name = (s.sequence id).name ∧ ∃ n, t.journal =
            .moved id .started 0 :: .began id :: .notice n :: (j ++ s.journal))) := by
  simp only [launch, Act.bind_apply, Act.read] at h
  split at h
  · obtain ⟨rfl, rfl⟩ := Prod.mk.inj h
    exact ⟨[.notice (.alreadyRunning (s.sequence id).name)], by simp [Entry.isRemark],
      .inl ⟨by simp, rfl⟩⟩
  next hidle =>
  have ha := admitted_remarks id (s.sequence id).guard s
  rw [Act.bind_apply] at h
  rcases hg : admitted id (s.sequence id).guard s with ⟨e | ok, u⟩ <;> rw [hg] at h ha
  · obtain ⟨rfl, rfl⟩ := Prod.mk.inj h
    obtain ⟨j, hj, hr⟩ := ha.journal
    exact ⟨j, hr, .inl ⟨by simp, hj⟩⟩
  obtain ⟨j, hj, hr⟩ := ha.journal
  dsimp only at h hj
  split at h
  · obtain ⟨rfl, rfl⟩ := Prod.mk.inj h
    exact ⟨.notice (.refusedByGuard (s.sequence id).name) :: j, by simpa [Entry.isRemark] using hr,
      .inl ⟨by simp, congrArg (_ :: ·) hj⟩⟩
  let v := u.modify id fun q => { q with validators := [] }
  have hf := failures_remarks id 0 (s.sequence id).validators v
  simp only [tryOut, Act.bind_apply, Act.change] at h
  rcases hfail : failures id 0 (s.sequence id).validators v with ⟨e | failed, w⟩ <;>
    rw [hfail] at h hf
  · obtain ⟨rfl, rfl⟩ := Prod.mk.inj h
    obtain ⟨j', hj', hr'⟩ := hf.journal
    refine ⟨j' ++ j, fun e he => (List.mem_append.mp he).elim (hr' e) (hr e), .inl ⟨by simp, ?_⟩⟩
    rw [List.append_assoc, ← hj]
    exact hj'
  obtain ⟨j', hj', hr'⟩ := hf.journal
  have hw : w.journal = (j' ++ j) ++ s.journal := by
    rw [List.append_assoc, ← hj]
    exact hj'
  refine ⟨j' ++ j, fun e he => (List.mem_append.mp he).elim (hr' e) (hr e), ?_⟩
  dsimp only at h
  split at h
  · obtain ⟨rfl, rfl⟩ := Prod.mk.inj h
    refine .inr ⟨rfl, by simpa using hidle, ?_, .started (s.sequence id).name
      (s.sequence id).stepCount, congrArg (_ :: _ :: _ :: ·) hw⟩
    have hname : ∀ i, ((w.modify i Sequence.begun).sequence id).name = (w.sequence id).name :=
      fun i => w.field_modify (f := Sequence.begun) (·.name) (fun _ => rfl) i id
    have hv : (v.sequence id).name = (u.sequence id).name :=
      u.field_modify (f := fun q => { q with validators := [] }) (·.name) (fun _ => rfl) id id
    exact (hname id).trans ((congrArg Sequence.name (hf.sequence id)).trans
      (hv.trans (congrArg Sequence.name (ha.sequence id))))
  · obtain ⟨rfl, rfl⟩ := Prod.mk.inj h
    exact .inl ⟨by simp, hw⟩

/-- A start that succeeds tells the callback at once, and one that fails tells nobody. -/
theorem start_tells {run : Runner} (hrun : run.Follows) {name : String}
    {r : Except Refusal Bool} (h : start run name s = (.ok r, t)) :
    ∃ j, (∀ e ∈ j, e.isRemark = true) ∧ ((r ≠ .ok true ∧ t.journal = j ++ s.journal) ∨
      (r = .ok true ∧ ∃ id l n b, s.find? name = some id ∧ (s.sequence id).running = false ∧
        t.journal = l ++ .notified id (s.sequence id).name .started b :: .moved id .started 0 ::
          .began id :: .notice n :: (j ++ s.journal))) := by
  cases hn : s.find? name with
  | none =>
    rw [start, onNamed_none hn] at h
    obtain ⟨hr, rfl⟩ := Prod.mk.inj h
    obtain rfl := Except.ok.inj hr
    exact ⟨[.notice (.unknown name)], by simp [Entry.isRemark], .inl ⟨by simp, rfl⟩⟩
  | some id =>
    rw [start, onNamed_some hn, Act.bind_apply] at h
    rcases hl : launch id s with ⟨a, u⟩
    obtain ⟨j, hj, hfail | ⟨rfl, hidle, hname, n, hu⟩⟩ := launch_tells hl
    · rw [hl] at h
      refine ⟨j, hj, .inl ?_⟩
      rcases a with e | e | ok
      · exact absurd (congrArg Prod.fst h) (by simp)
      · obtain ⟨hr, rfl⟩ := Prod.mk.inj h
        obtain rfl := Except.ok.inj hr
        exact ⟨by simp, hfail.2⟩
      · cases ok with
        | true => exact absurd rfl hfail.1
        | false =>
          obtain ⟨hr, rfl⟩ := Prod.mk.inj h
          obtain rfl := Except.ok.inj hr
          exact ⟨by simp, hfail.2⟩
    · rw [hl] at h
      simp only [Act.bind_apply, Act.change] at h
      have hleads : Leads Nowhere _ _ _ := notify_leads hrun id .started (u.enlist id)
      have hgrows := hleads.course.grows
      rcases htold : notify run id .started (u.enlist id) with ⟨e | a, v⟩ <;>
        rw [htold] at h hgrows
      · exact absurd (congrArg Prod.fst h) (by simp)
      · obtain ⟨hr, rfl⟩ := Prod.mk.inj h
        obtain rfl := Except.ok.inj hr
        obtain ⟨l, hl⟩ := hgrows
        refine ⟨j, hj, .inr ⟨rfl, id, l, n, ((u.sequence id).hook .started).isSome, rfl, hidle, ?_⟩⟩
        rw [hl, Stage.journal_notify, Stage.journal_enlist, hu, Stage.sequence_enlist, hname]

/-- A restore tells no callback. -/
theorem restore_untold {b : Bookmark} {r : Except Halt Bool} (h : restore b s = (r, t)) :
    ∃ l, t.journal = l ++ s.journal ∧
      ∀ id name hook isSet, Entry.notified id name hook isSet ∉ l := by
  cases hn : s.find? b.sequence with
  | none =>
    rw [restore, onNamed_none hn] at h
    obtain ⟨-, rfl⟩ := Prod.mk.inj h
    exact ⟨[_], rfl, by simp⟩
  | some id =>
    rw [restore, onNamed_some hn] at h
    have ht : (s.restoring id b.index).note (.notice (.restored b.sequence
        ((s.restoring id b.index).sequence id).current)) = t := congrArg Prod.snd h
    have hj : ∃ n c was, t.journal =
        [.notice n, .moved id (.restored b.index) c, .restored id was] ++ s.journal := by
      rw [← ht, Stage.journal_note, Stage.restoring, Stage.journal_enlist]
      exact ⟨_, _, _, rfl⟩
    obtain ⟨n, c, was, hj⟩ := hj
    exact ⟨_, hj, by simp⟩

end Conductor

/-- Whenever user code is running or between operations, the starts of a sequence and the restores
that found it idle outnumber the ends that its callbacks were told of by one if it runs, and not
at all if it does not; so they do at every earlier point of the journal. A run that begins is told
to `on_started` right then, before anything is done with its steps, and nothing else is told to it;
the end of a run is told by a stop or a removal of the running sequence to `on_stopped`, and by a
turn that finds the cursor at the step count to `on_completed`. A restore tells nobody. -/
theorem callbacks_balance {m : Moment} (h : m.Reached) :
    (∀ id, m.stage.journal.countP (Entry.opensRun id) =
      m.stage.journal.countP (Entry.closesRun id) + (m.stage.sequence id).running.toNat) ∧
    (∀ id l j, m.stage.journal = l ++ j → j.countP (Entry.opensRun id) =
      j.countP (Entry.closesRun id) + (Record.replay id j {}).running.toNat) ∧
    (∀ id l j, m.stage.journal = l ++ .began id :: j →
      (Record.replay id j {}).running = false ∧
        ∃ l' name b, l = l' ++ [.notified id name .started b, .moved id .started 0]) ∧
    (∀ id name b l j, m.stage.journal = l ++ .notified id name .started b :: j →
      ∃ j', j = .moved id .started 0 :: .began id :: j') ∧
    (∀ id name b l j, m.stage.journal = l ++ .notified id name .stopped b :: j →
      ∃ (k : Moment) (e : Errand) (t : Stage), k.Reached ∧ (e = .stopping id ∨ e = .removing id) ∧
        e.Begins k.stage t ∧ (k.stage.sequence id).running = true ∧
        t.journal = .notified id name .stopped b :: j) ∧
    (∀ id name b l j, m.stage.journal = l ++ .notified id name .completed b :: j →
      ∃ (k : Moment) (t : Stage), k.Reached ∧ Errand.Begins (.completing id) k.stage t ∧
        (k.stage.sequence id).running = true ∧
        (k.stage.sequence id).current = (k.stage.sequence id).stepCount ∧
        t.journal = .notified id name .completed b :: j) ∧
    ∀ run : Runner, (∀ c u, Session (run c u).1.isOk u (run c u).2) →
      (∀ name r t, Conductor.start run name m.stage = (.ok r, t) →
        ∃ j, (∀ e ∈ j, e.isRemark = true) ∧
          ((r ≠ .ok true ∧ t.journal = j ++ m.stage.journal) ∨
            (r = .ok true ∧ ∃ id l n b, m.stage.find? name = some id ∧
              (m.stage.sequence id).running = false ∧
              t.journal = l ++ .notified id (m.stage.sequence id).name .started b ::
                .moved id .started 0 :: .began id :: .notice n :: (j ++ m.stage.journal)))) ∧
      ∀ b r t, Conductor.restore b m.stage = (r, t) → ∃ l, t.journal = l ++ m.stage.journal ∧
        ∀ id name hook isSet, Entry.notified id name hook isSet ∉ l := by
  have hacc := h.accounts
  have harises : ∀ l e j, m.stage.journal = l ++ e :: j → e.Arises l j := by
    obtain ⟨J, hJ, hall⟩ := hacc
    rw [List.append_nil] at hJ
    intro l e j hj
    have he := hall l e j (hJ ▸ hj)
    rwa [List.append_nil] at he
  refine ⟨fun id => ?_, hacc.balance, ?_, ?_, ?_, ?_, ?_⟩
  · rw [h.running id]
    exact hacc.balance id [] m.stage.journal rfl
  · intro id l j hj
    obtain ⟨⟨k, n, hk, hr, rfl⟩, hl⟩ := harises l (.began id) j hj
    rw [hk.running] at hr
    exact ⟨hr, hl⟩
  · exact fun id name b l j hj => harises l (.notified id name .started b) j hj
  · intro id name b l j hj
    obtain ⟨k, e, t, hk, hb, rfl, hhook, ht⟩ := harises l (.notified id name .stopped b) j hj
    refine ⟨k, e, t, hk, ?_, hb, hb.running, ht⟩
    cases e with
    | stopping id => exact .inl rfl
    | removing id => exact .inr rfl
    | _ => exact absurd hhook (by simp [Errand.hook?])
  · intro id name b l j hj
    obtain ⟨k, e, t, hk, hb, rfl, hhook, ht⟩ := harises l (.notified id name .completed b) j hj
    cases hb with
    | completing n hd hc =>
      exact ⟨k, _, hk, .completing n hd hc, hd.running,
        Nat.le_antisymm (hk.kept.chronicled.bounded _) hc, ht⟩
    | _ => exact absurd hhook (by simp [Errand.hook?])
  · intro run callbacks
    have hrun : run.Follows := fun c u => (callbacks c u).leads
    exact ⟨fun name r t hs => Conductor.start_tells hrun hs, fun b r t hb =>
      Conductor.restore_untold hb⟩

/-- In the middle of a stop, after its callback has started the sequence again: two runs opened,
one of them closed. -/
theorem callbacks_balance_restarted_by_stop :
    let a : Outline Command :=
      { name := "a", steps := [.call []], onStopped := some [.start "a"] }
    let s := ((Stage.opening {} {}).run false [.register a, .start "a"]).2
    let told := s.ending 0 .stopped (.stopped "a" 0)
    let m : Moment := ⟨[.stopping 0], (dispatch (perform 1) (.start "a") told).2⟩
    m.Reached ∧ (m.stage.sequence 0).running = true ∧
      m.stage.journal.countP (Entry.closesRun 0) = 1 ∧
      m.stage.journal.countP (Entry.opensRun 0) = 2 := by
  intro a s told m
  have hs : Moment.Reached ⟨[], s⟩ := .of_session (Session.run false _ (.opening {} {}))
  have hn : s.find? "a" = some 0 := by decide
  have htold : Errand.Begins (.stopping 0) s told := .stopping _ hn (by decide)
  have hm : m.Reached :=
    (hs.step (.begins htold)).command (fun c u => (Session.perform 1 c u).leads) _
  have hr : (m.stage.sequence 0).running = true := by decide +kernel
  have hc : m.stage.journal.countP (Entry.closesRun 0) = 1 := by decide +kernel
  exact ⟨hm, hr, hc, by rw [(callbacks_balance hm).1 0, hr, hc]; rfl⟩

end Sequencer
