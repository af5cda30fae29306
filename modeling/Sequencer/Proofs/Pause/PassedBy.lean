import Sequencer.Proofs.LeftAlone

/-!
# Sequences that are passed by

A sequence that nobody operates on and none of whose steps is driven stays as it is, down to the
progress of every step, and nothing is told of it. If it finds itself paused in all its turns, it
also stays in the active list.
-/

set_option autoImplicit false

namespace Sequencer

open Site (Nowhere Within)

namespace Entry

def touches (id : Nat) : Entry → Bool
  | .began i => i == id
  | .restored i _ => i == id
  | .moved i _ _ => i == id
  | .notified _ _ .started _ => false
  | .notified i _ _ _ => i == id
  | .turn i .driven => i == id
  | _ => false

def passesBy (id : Nat) : Entry → Bool
  | .dropped i _ => i != id
  | .turn _ .paused => true
  | .turn i _ => i != id
  | e => !e.touches id

def operates (id : Nat) : Entry → Bool
  | .dropped i _ => i == id
  | .turn i _ => i == id
  | e => e.touches id

def tellsOf (id : Nat) : Entry → Bool
  | .called σ _ => σ.root == some id
  | .returned σ _ => σ.root == some id
  | .notified i _ .completed _ => i == id
  | _ => false

theorem touches_of_passesBy {id : Nat} {e : Entry} (h : e.passesBy id = true) :
    e.touches id = false := by
  cases e with
  | turn i τ => cases τ <;> simp_all [passesBy, touches]
  | _ => simp_all [passesBy, touches]

theorem passesBy_of_operates {id : Nat} {e : Entry} (h : e.operates id = false) :
    e.passesBy id = true := by
  cases e with
  | turn i τ => cases τ <;> simp_all [operates, passesBy]
  | _ => simp_all [operates, passesBy]

theorem tellsOf_of_isRemark {e : Entry} (h : e.isRemark = true) (id : Nat) :
    e.tellsOf id = false := by
  cases e <;> first | rfl | simp [isRemark] at h

end Entry

def Untouched (id : Nat) : Stage → Stage → Prop := OnlyAdds fun e => e.touches id = false

/-- From one stage to the other the sequence is passed by. -/
def PassedBy (id : Nat) : Stage → Stage → Prop := OnlyAdds fun e => e.passesBy id = true

def Unattended (id : Nat) : Stage → Stage → Prop := OnlyAdds fun e => e.operates id = false

section

variable {id : Nat} {s t : Stage} {l k : List Entry} {e : Entry}

theorem PassedBy.untouched (h : PassedBy id s t) : Untouched id s t :=
  h.mono fun _ => Entry.touches_of_passesBy

theorem Unattended.passedBy (h : Unattended id s t) : PassedBy id s t :=
  h.mono fun _ => Entry.passesBy_of_operates

theorem Untouched.spared (h : Untouched id s t)
    (hj : t.journal = (l ++ e :: k) ++ s.journal) : e.touches id = false :=
  h.of_append hj e (by simp)

theorem PassedBy.spared (h : PassedBy id s t)
    (hj : t.journal = (l ++ e :: k) ++ s.journal) : e.passesBy id = true :=
  h.of_append hj e (by simp)

theorem Entry.ne_of_untouched {i : Nat} {name : String} {hook : Hook} {b : Bool}
    (hh : hook ≠ .started) (h : (Entry.notified i name hook b).touches id = false) : id ≠ i := by
  rintro rfl
  cases hook <;> simp_all [Entry.touches]

end

/-- A sequence but for whether it is paused and which of its checks were used up. -/
def Sequence.core (q : Sequence) : Sequence := { q with paused := false, validators := [] }

structure Stage.Leaves (id : Nat) (s t : Stage) : Prop where
  length : s.sequences.length ≤ t.sequences.length
  core : (t.sequence id).core = (s.sequence id).core
  told : OnlyAdds (fun e => e.tellsOf id = false) s t

namespace Stage.Leaves

variable {id i : Nat} {s t u : Stage}

theorem refl (id : Nat) (s : Stage) : Stage.Leaves id s s := ⟨Nat.le_refl _, rfl, .refl _ s⟩

theorem trans (h : Stage.Leaves id s t) (h' : Stage.Leaves id t u) : Stage.Leaves id s u :=
  ⟨Nat.le_trans h.length h'.length, h'.core.trans h.core, h.told.trans h'.told⟩

theorem aside (h : Aside s t) : Stage.Leaves id s t := by
  obtain ⟨l, hl, hr⟩ := h.journal
  exact ⟨Nat.le_of_eq (by rw [h.sequences]), by rw [h.sequence], l, hl,
    fun e he => Entry.tellsOf_of_isRemark (hr e he) id⟩

theorem note (s : Stage) {e : Entry} (he : e.tellsOf id = false) :
    Stage.Leaves id s (s.note e) := ⟨Nat.le_refl _, rfl, [e], rfl, by simpa using he⟩

/-- A change of another sequence, or of what does not belong to the core of this one. -/
theorem modify (s : Stage) (i : Nat) {f : Sequence → Sequence}
    (hf : i = id → ∀ q, (f q).core = q.core) : Stage.Leaves id s (s.modify i f) := by
  refine ⟨Nat.le_of_eq (s.length_modify i f).symm, ?_, .of_same rfl⟩
  by_cases hi : id = i
  · exact s.field_modify Sequence.core (hf hi.symm) i id
  · rw [s.sequence_modify_ne f hi]

theorem of_ne (s : Stage) (hi : i ≠ id) (f : Sequence → Sequence) :
    Stage.Leaves id s (s.modify i f) := modify s i fun h => absurd h hi

theorem enlist (s : Stage) (i : Nat) : Stage.Leaves id s (s.enlist i) :=
  ⟨by simp, by simp, .of_same (by simp)⟩

theorem delist (s : Stage) (i : Nat) : Stage.Leaves id s (s.delist i) :=
  ⟨Nat.le_refl _, rfl, .of_same rfl⟩

theorem sweep (s : Stage) (i : Nat) : Stage.Leaves id s (s.sweep i) := by
  unfold Stage.sweep
  split
  · exact .refl id s
  · exact .delist s i

theorem dropping (s : Stage) (i : Nat) : Stage.Leaves id s (s.dropping i) :=
  (note s (e := .dropped i _) rfl).trans (.delist _ i)

theorem hold (s : Stage) (h : Table String Held) : Stage.Leaves id s { s with held := h } :=
  ⟨Nat.le_refl _, rfl, .of_same rfl⟩

theorem unregister (s : Stage) (name : String) : Stage.Leaves id s (s.unregister name) :=
  ⟨Nat.le_refl _, rfl, .of_same rfl⟩

theorem enroll (hid : id < s.sequences.length) (q : Sequence) :
    Stage.Leaves id s (s.enroll q) :=
  ⟨by simp, by rw [Stage.sequence_enroll, if_neg (Nat.ne_of_lt hid)], .of_same rfl⟩

theorem notify (s : Stage) (hi : i ≠ id) (hook : Hook) : Stage.Leaves id s (s.notify i hook) := by
  apply note s
  cases hook <;> simp [Entry.tellsOf, hi]

theorem ending (s : Stage) (hi : i ≠ id) (hook : Hook) (n : Notice) :
    Stage.Leaves id s (s.ending i hook n) :=
  ((of_ne s hi Sequence.ended).trans (.note _ (e := .notice n) rfl)).trans (.notify _ hi hook)

theorem starting (s : Stage) (hi : i ≠ id) (n : Notice) :
    Stage.Leaves id s (s.starting i n) := by
  have hb := (of_ne s hi Sequence.begun).trans (.note _ (e := .notice n) rfl)
  have hc := (hb.trans (.note _ (e := .began i) rfl)).trans (.note _ (e := .moved i .started 0) rfl)
  exact (hc.trans (.enlist _ i)).trans (.notify _ hi .started)

theorem rewinding (s : Stage) (hi : i ≠ id) : Stage.Leaves id s (s.rewinding i) :=
  (of_ne s hi Sequence.rewound).trans (.note _ (e := .moved i .reset 0) rfl)

/-- What a restore does after it has set the cursor. -/
theorem restored (s : Stage) (i index : Nat) :
    Stage.Leaves id (s.modify i (Sequence.resumed index)) (s.restoring i index) := by
  have hr : Stage.Leaves id (s.modify i (Sequence.resumed index)) _ :=
    .note _ (e := .restored i (s.sequence i).running) rfl
  have hm : ∀ u : Stage, Stage.Leaves id u
      (u.note (.moved i (.restored index) (u.sequence i).current)) := fun u => .note u rfl
  exact (hr.trans (hm _)).trans (.enlist _ i)

theorem restoring (s : Stage) (hi : i ≠ id) (index : Nat) :
    Stage.Leaves id s (s.restoring i index) :=
  (of_ne s hi (Sequence.resumed index)).trans (.restored s i index)

theorem lending (s : Stage) (hi : i ≠ id) : Stage.Leaves id s (s.lending i) :=
  ((note s (e := .turn i .driven) rfl).trans (of_ne _ hi _)).trans (of_ne _ hi _)

theorem afterPlay (s : Stage) (hi : i ≠ id) (q : Sequence) (part : Part) (r : Except Halt Status) :
    Stage.Leaves id s (s.afterPlay i q part r) := by
  have hr : Stage.Leaves id s (s.returning i q.current part) := of_ne s hi _
  cases r with
  | error e => exact hr
  | ok status =>
    have hd := hr.trans (.note _ (e := .drove i status) rfl)
    simp only [Stage.afterPlay, Stage.advancing]
    split
    · exact (hd.trans (of_ne _ hi _)).trans (.note _ (e := .moved i .settled _) rfl)
    · exact hd

end Stage.Leaves

theorem Incident.leaves {own : Site → Prop} {s t : Stage} (h : Incident own s t) {id : Nat}
    (hid : id < s.sequences.length) (hown : ∀ σ, own σ → σ.root ≠ some id)
    (hu : Untouched id s t) : Stage.Leaves id s t := by
  have helse : ∀ {σ : Site}, own σ ∨ σ.root = none → (σ.root == some id) = false := by
    rintro σ (hσ | hσ)
    · simpa using hown σ hσ
    · simp [hσ]
  cases h with
  | aside h => exact .aside h
  | called c hσ => exact .note s (helse hσ)
  | returned r hσ => exact .note s (helse hσ)
  | held h _ => exact .hold s h
  | registered resolve o _ => exact .enroll hid _
  | @registeredHeld slot q _ _ =>
    have hh : Stage.Leaves id s { s with held := s.held.erase slot } := .hold s _
    exact hh.trans (.enroll (s := { s with held := s.held.erase slot }) hid q)
  | checked i => exact .modify s i fun _ _ => rfl
  | paused i f => exact .modify s i fun _ _ => rfl
  | @started _ i n _ _ =>
    have hi := hu.spared (l := [.notified i _ .started _, .moved i .started 0]) (e := .began i)
      (k := [.notice n]) (by rw [Stage.starting, Stage.journal_notify, Stage.journal_enlist]; rfl)
    exact .starting s (by simpa [Entry.touches] using hi) n
  | @reset _ i _ =>
    have hi := hu.spared (l := []) (e := .moved i .reset 0) (k := []) rfl
    exact .rewinding s (by simpa [Entry.touches] using hi)
  | @restored _ i index _ =>
    have hi := hu.spared (l := [.moved i (.restored index) _]) (e := .restored i _) (k := [])
      (by rw [Stage.restoring, Stage.journal_enlist]; rfl)
    exact .restoring s (by simpa [Entry.touches] using hi) index
  | @ended i hook n hh _ =>
    have hi := hu.spared (l := []) (e := .notified i _ hook _) (k := [.notice n]) rfl
    exact .ending s (Entry.ne_of_untouched hh hi).symm hook n
  | dropped i => exact .dropping s i
  | unregistered name => exact .unregister s name
  | delisted i => exact .delist s i
  | swept i => exact .sweep s i
  | turned _ => exact .note s rfl

/-- A sequence that is not touched stays as it is, and nothing is told of it. -/
theorem Course.leaves {own : Site → Prop} {calm : Bool} {s t : Stage} (h : Course own calm s t)
    (hs : s.Sound) {id : Nat} (hid : id < s.sequences.length)
    (hown : ∀ σ, own σ → σ.root ≠ some id) (hu : Untouched id s t) : Stage.Leaves id s t := by
  induction h with
  | single h => exact h.leaves hid hown hu
  | halt _ ih => exact ih hs hid hown hu
  | trans h h' ih ih' =>
    obtain ⟨hst, htu⟩ := hu.split h.grows h'.grows
    have hl := ih hs hid hown hst
    exact hl.trans (ih' (h.lasts hs).1 (Nat.lt_of_lt_of_le hid hl.length) hown htu)
  | widen hw _ ih =>
    refine ih hs hid (fun σ hσ => ?_) hu
    rcases hw σ hσ with hσ | hσ
    · exact hown σ hσ
    · simp [hσ]
  | @driven own run dt s t i part r p hd h ih =>
    have hlent : Grows s (s.lending i) := ⟨[_], rfl⟩
    obtain ⟨hst, -⟩ := hu.split (hlent.trans h.grows)
      (t.journal_afterPlay i (s.sequence i) ⟨part.step, p⟩ r)
    obtain ⟨hturn, hst⟩ := hst.split hlent h.grows
    have hi : i ≠ id := by
      simpa [Entry.touches] using
        Untouched.spared hturn (l := []) (e := .turn i .driven) (k := []) rfl
    have hplay := ih (hs.lending i) (by rwa [s.length_lending]) (fun σ hσ hr => ?_) hst
    · exact ((Stage.Leaves.lending s hi).trans hplay).trans (.afterPlay t hi _ _ r)
    · rw [hσ.root_eq] at hr
      exact hi (Option.some.inj hr)

/-! Where the sequence is listed -/

def Retained (id : Nat) (s t : Stage) : Prop := s.Registered id → t.Registered id

theorem Extends.registered {own : Site → Prop} {s t : Stage} (h : Extends own s t) {id : Nat}
    (hid : id < s.sequences.length) (hr : t.Registered id) : s.Registered id := by
  obtain ⟨name, hf⟩ := hr
  rcases h.names name id hf with hf | hle
  · exact ⟨name, hf⟩
  · omega

/-- A course that retains a sequence retains it in both of its parts. -/
theorem Retained.split {own own' : Site → Prop} {s t u : Stage} {id : Nat}
    (hid : id < s.sequences.length) (h : Retained id s u) (hst : Extends own s t)
    (htu : Extends own' t u) : Retained id s t ∧ Retained id t u :=
  ⟨fun hr => htu.registered (Nat.lt_of_lt_of_le hid hst.length) (h hr),
    fun hr => h (hst.registered hid hr)⟩

theorem Extends.to_if {own : Site → Prop} {t u : Stage} (h : Extends own t u) (calm : Bool) :
    Extends own t (if calm then u else t) := by
  cases calm with
  | true => exact h
  | false => exact .refl own t

/-- The run that ended in a stretch in which a sequence is passed by was that of another one. -/
theorem PassedBy.ended {own own' own'' : Site → Prop} {s u t v : Stage} {id i : Nat} {hook : Hook}
    {name : String} {b : Bool} {l : List Entry} (hp : PassedBy id s v) (hr : Retained id s v)
    (hh : hook ≠ .started) (hlt : id < s.sequences.length) (hsu : Extends own s u)
    (hj : u.journal = (.notified i name hook b :: l) ++ s.journal) (hut : Extends own' u t)
    (htv : Extends own'' t v) : id ≠ i ∧ PassedBy id u t ∧ Retained id u t := by
  have grows : ∀ {own : Site → Prop} {s t : Stage}, Extends own s t → Grows s t := by
    intro _ _ _ h
    obtain ⟨l, hl, -⟩ := h.journal
    exact ⟨l, hl⟩
  obtain ⟨hpt, -⟩ := hp.split ((grows hsu).trans (grows hut)) (grows htv)
  obtain ⟨hpu, hpt⟩ := hpt.split (grows hsu) (grows hut)
  have hlu := Nat.lt_of_lt_of_le hlt hsu.length
  have hrv : Retained id u v := fun hru => hr (hsu.registered hlt hru)
  refine ⟨Entry.ne_of_untouched hh ((PassedBy.untouched hpu).spared (l := []) hj), hpt, fun hru => ?_⟩
  exact htv.registered (Nat.lt_of_lt_of_le hlu hut.length) (hrv hru)

theorem Stage.mem_active_sweep_ne (s : Stage) {id i : Nat} (hne : id ≠ i) (hid : id ∈ s.active) :
    id ∈ (s.sweep i).active := by
  unfold sweep
  split
  · exact hid
  · exact (s.mem_active_delist i id).mpr ⟨hid, hne⟩

/-- Whoever is listed and passed by stays listed, also if it does not run. -/
theorem Leads.keepsListed {own : Site → Prop} {calm : Bool} {s t : Stage} (h : Leads own calm s t)
    (hs : s.Sound) {id : Nat} (hlt : id < s.sequences.length) (hp : PassedBy id s t)
    (hr : Retained id s t) (hid : id ∈ s.active) : id ∈ t.active := by
  induction h with
  | aside h => rwa [h.active]
  | halt _ ih => exact ih hs hlt hp hr hid
  | trans h h' ih ih' =>
    obtain ⟨hst, htu⟩ := hp.split h.course.grows h'.course.grows
    obtain ⟨ht, he⟩ := h.lasts hs
    obtain ⟨hrst, hrtu⟩ := hr.split hlt he (h'.lasts ht).2
    exact ih' ht (Nat.lt_of_lt_of_le hlt he.length) htu hrtu (ih hs hlt hst hrst hid)
  | widen _ _ ih => exact ih hs hlt hp hr hid
  | called s c _ => exact hid
  | returned s r _ => exact hid
  | held s h _ => exact hid
  | registered resolve o _ => exact hid
  | registeredHeld _ _ => exact hid
  | checked s i => exact hid
  | paused s i f => exact hid
  | @started own s name i n _ _ => exact (Stage.mem_active_enlist _ i id).mpr (.inr hid)
  | reset _ => exact hid
  | @restored own s name i index _ => exact (Stage.mem_active_enlist _ i id).mpr (.inr hid)
  | @stoppedIdle own s name i _ hidle =>
    have hi := hp.spared (l := []) (e := .dropped i _) (k := []) rfl
    have hne : id ≠ i := fun h => absurd h.symm (by simpa [Entry.passesBy] using hi)
    exact (Stage.mem_active_delist _ i id).mpr ⟨hid, hne⟩
  | @stopped own calm s t name i n hn hrun h ih =>
    have hs' := hs.ending i .stopped n
    have he : Extends own s (s.ending i .stopped n) := .ending s i .stopped n
    have hlast := (h.lasts hs').2
    have hback : Extends own t (t.dropping i) := .dropping t i
    obtain ⟨hne, hpt, hrt⟩ := hp.ended hr (by simp) hlt he (l := [.notice n]) rfl hlast
      (hback.to_if calm)
    have ht := ih hs' (Nat.lt_of_lt_of_le hlt he.length) hpt hrt hid
    exact Stage.mem_active_if (u := t.dropping i) ht
      (fun ht => (Stage.mem_active_delist _ i id).mpr ⟨ht, hne⟩) calm
  | @removedIdle own s name i hn hidle =>
    refine (Stage.mem_active_delist _ i id).mpr ⟨hid, ?_⟩
    rintro rfl
    obtain ⟨other, hother⟩ := hr ⟨name, hn⟩
    have hfind : (s.unregister name).find? other = some id := hother
    rw [Stage.find?_unregister] at hfind
    split at hfind
    · exact absurd hfind (by simp)
    · next hne =>
      -- nobody is registered under two names
      exact hne ((hs.named _ _ hfind).2.symm.trans (hs.named _ _ hn).2)
  | @removed own calm s t name i n hn hrun h ih =>
    have hs' := (hs.unregister name).ending i .stopped n
    have he : Extends own s ((s.unregister name).ending i .stopped n) :=
      (Extends.unregister s name).trans (.ending _ i .stopped n)
    have hlast := (h.lasts hs').2
    have hback : Extends own t (t.delist i) := .delist (.refl own t) i
    obtain ⟨hne, hpt, hrt⟩ := hp.ended hr (by simp) hlt he (l := [.notice n]) rfl hlast
      (hback.to_if calm)
    have ht := ih hs' (Nat.lt_of_lt_of_le hlt he.length) hpt hrt hid
    exact Stage.mem_active_if ht (fun ht => (Stage.mem_active_delist _ i id).mpr ⟨ht, hne⟩) calm
  | passed _ => exact hid
  | @idle own s i _ _ =>
    have hi := hp.spared (l := []) (e := .turn i .idle) (k := []) (s.note _ |>.journal_sweep i)
    have hne : id ≠ i := fun h => absurd h.symm (by simpa [Entry.passesBy] using hi)
    exact Stage.mem_active_sweep_ne _ hne hid
  | @completed own calm s t i n hd hc h ih =>
    have hs' := (hs.note (.turn i .completed)).ending i .completed n
    have hn : Extends own s (s.note (.turn i .completed)) := .note (.refl own s) fun _ _ => trivial
    have he : Extends own s ((s.note (.turn i .completed)).ending i .completed n) :=
      hn.trans (.ending _ i .completed n)
    have hlast := (h.lasts hs').2
    have hback : Extends own t (t.sweep i) := .sweep (.refl own t) i
    obtain ⟨hne, hpt, hrt⟩ := hp.ended hr (by simp) hlt he (l := [.notice n, .turn i .completed]) rfl
      hlast (hback.to_if calm)
    have ht := ih hs' (Nat.lt_of_lt_of_le hlt he.length) hpt hrt hid
    exact Stage.mem_active_if ht (t.mem_active_sweep_ne hne) calm
  | @busy own s i _ _ _ =>
    have hi := hp.spared (l := []) (e := .turn i .busy) (k := []) (s.note _ |>.journal_sweep i)
    have hne : id ≠ i := fun h => absurd h.symm (by simpa [Entry.passesBy] using hi)
    exact Stage.mem_active_sweep_ne _ hne hid
  | @driven own s t i part run dt r p hd hfree hcursor _ _ h _ ih =>
    have hlent : Grows s (s.lending i) := ⟨[_], rfl⟩
    obtain ⟨hst, -⟩ := hp.split (hlent.trans h.course.grows)
      (.back t i (s.sequence i) ⟨part.step, p⟩ r)
    obtain ⟨hturn, hst⟩ := hst.split hlent h.course.grows
    have hi := PassedBy.spared hturn (l := []) (e := .turn i .driven) (k := []) rfl
    have hne : id ≠ i := fun h => absurd h.symm (by simpa [Entry.passesBy] using hi)
    have hrt : Retained id (s.lending i) t := by
      rintro ⟨name, hf⟩
      obtain ⟨other, hother⟩ := hr ⟨name, hf⟩
      refine ⟨other, ?_⟩
      dsimp only at hother
      split at hother <;>
        simpa only [Stage.find?, Stage.registry_sweep, Stage.registry_afterPlay] using hother
    have ht := ih (hs.lending i) (by rwa [s.length_lending]) hst hrt hid
    rw [← t.active_afterPlay i (s.sequence i) ⟨part.step, p⟩ r] at ht
    exact Stage.mem_active_if ht (Stage.mem_active_sweep_ne _ hne) r.isOk

end Sequencer
