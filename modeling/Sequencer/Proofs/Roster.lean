import Sequencer.Proofs.Record

/-!
# The active list

The active list is meant to hold the sequences that run. While callbacks are under way it also
holds sequences whose end is being told, so the invariant names these. A stop takes its sequence
off the list even if the callback that was told of it has set the sequence running again; apart
from sequences lost in this way the list is exact.
-/

set_option autoImplicit false

namespace Sequencer

open Site (Nowhere Within)

def Stage.Registered (s : Stage) (id : Nat) : Prop := ∃ name, s.find? name = some id

/-- Whether a stop took the sequence off the active list although it ran, and no start or restore
has put it there again. -/
def lost (id : Nat) : List Entry → Bool
  | [] => false
  | .began i :: rest => if i = id then false else lost id rest
  | .restored i _ :: rest => if i = id then false else lost id rest
  | .dropped i running :: rest => if i = id then running else lost id rest
  | _ :: rest => lost id rest

theorem lost_remarks {l : List Entry} (hl : ∀ e ∈ l, e.isRemark = true) (id : Nat)
    (j : List Entry) : lost id (l ++ j) = lost id j := by
  induction l with
  | nil => rfl
  | cons e l ih =>
    have he := hl e List.mem_cons_self
    have ih := ih fun e' he' => hl e' (List.mem_cons_of_mem _ he')
    cases e <;> first | exact ih | simp [Entry.isRemark] at he

structure Roster (X : Nat → Prop) (s : Stage) : Prop where
  nodup : s.active.Nodup
  listed : ∀ id, id ∈ s.active → X id ∨ s.Registered id ∧ (s.sequence id).running = true
  registered : ∀ id, (s.sequence id).running = true → s.Registered id
  active : ∀ id, (s.sequence id).running = true → id ∈ s.active ∨ lost id s.journal = true
  lost : ∀ id, lost id s.journal = true → id ∉ s.active

theorem Stage.running_ending_self (s : Stage) {id : Nat} (hid : id < s.sequences.length)
    (hook : Hook) (n : Notice) : ((s.ending id hook n).sequence id).running = false := by
  rw [Stage.ending, Stage.sequence_notify, Stage.sequence_note, s.sequence_modify_self _ hid]
  rfl

abbrev Also (X : Nat → Prop) (id : Nat) : Nat → Prop := fun i => X i ∨ i = id

namespace Roster

variable {X Y : Nat → Prop} {s t : Stage} {id : Nat}

theorem mono (h : Roster X s) (hX : ∀ i, X i → Y i) : Roster Y s :=
  { h with listed := fun i hi => (h.listed i hi).imp_left (hX i) }

theorem also (h : Roster X s) (id : Nat) : Roster (Also X id) s := h.mono fun _ => .inl

theorem congr (h : Roster X s) (ha : t.active = s.active) (hr : t.registry = s.registry)
    (hq : ∀ i, (t.sequence i).running = (s.sequence i).running)
    (hl : ∀ i, Sequencer.lost i t.journal = Sequencer.lost i s.journal) : Roster X t := by
  have hreg : ∀ i, t.Registered i ↔ s.Registered i := fun i => by
    simp only [Stage.Registered, Stage.find?, hr]
  constructor
  · rw [ha]; exact h.nodup
  · intro i hi
    rw [ha] at hi
    rw [hreg, hq]
    exact h.listed i hi
  · intro i hi
    rw [hq] at hi
    exact (hreg i).mpr (h.registered i hi)
  · intro i hi
    rw [hq] at hi
    rw [ha, hl]
    exact h.active i hi
  · intro i hi
    rw [hl] at hi
    rw [ha]
    exact h.lost i hi

theorem aside (h : Roster X s) (ht : Aside s t) : Roster X t := by
  obtain ⟨l, hl, hr⟩ := ht.journal
  exact h.congr ht.active ht.registry (fun i => by rw [ht.sequence]) fun i => by
    rw [hl, lost_remarks hr]

theorem note (h : Roster X s) {e : Entry}
    (he : ∀ i, Sequencer.lost i (e :: s.journal) = Sequencer.lost i s.journal) :
    Roster X (s.note e) := h.congr rfl rfl (fun _ => rfl) he

theorem modify (h : Roster X s) (id : Nat) {f : Sequence → Sequence}
    (hf : ∀ q, (f q).running = q.running) : Roster X (s.modify id f) :=
  h.congr rfl rfl (fun i => s.field_modify (·.running) hf id i) fun _ => rfl

/-- A sequence that is told to end does not run any more, and may still be in the list. -/
theorem ending (h : Roster X s) (hid : id < s.sequences.length) (hook : Hook) (n : Notice) :
    Roster (Also X id) (s.ending id hook n) := by
  have hself := s.running_ending_self hid hook n
  have hne : ∀ i, i ≠ id → (s.ending id hook n).sequence i = s.sequence i := fun i hi => by
    rw [Stage.ending, Stage.sequence_notify, Stage.sequence_note, s.sequence_modify_ne _ hi]
  have hrun : ∀ i, ((s.ending id hook n).sequence i).running = true →
      i ≠ id ∧ (s.sequence i).running = true := by
    intro i hi
    by_cases h : i = id
    · subst h
      rw [hself] at hi
      exact absurd hi (by simp)
    · rw [hne i h] at hi
      exact ⟨h, hi⟩
  constructor
  · exact h.nodup
  · intro i hi
    by_cases hid : i = id
    · exact .inl (.inr hid)
    · rw [hne i hid]
      exact (h.listed i hi).imp_left .inl
  · exact fun i hi => h.registered i (hrun i hi).2
  · exact fun i hi => h.active i (hrun i hi).2
  · exact h.lost

theorem delist (h : Roster (Also X id) s) (hr : (s.sequence id).running = false) :
    Roster X (s.delist id) := by
  constructor
  · exact h.nodup.filter _
  · intro i hi
    obtain ⟨hi, hne⟩ := (s.mem_active_delist id i).mp hi
    rcases h.listed i hi with (hX | hid) | hq
    · exact .inl hX
    · exact absurd hid hne
    · exact .inr hq
  · exact h.registered
  · intro i hi
    rcases h.active i hi with ha | hl
    · refine .inl ((s.mem_active_delist id i).mpr ⟨ha, ?_⟩)
      rintro rfl
      rw [Stage.sequence_delist, hr] at hi
      exact absurd hi (by simp)
    · exact .inr hl
  · exact fun i hi ha => h.lost i hi ((s.mem_active_delist id i).mp ha).1

/-- A stop takes the sequence off the list, also if it runs again. -/
theorem dropping (h : Roster (Also X id) s) : Roster X (s.dropping id) := by
  have hj : ∀ i, Sequencer.lost i (s.dropping id).journal =
      if id = i then (s.sequence id).running else Sequencer.lost i s.journal := fun _ => rfl
  have ha : ∀ i, i ∈ (s.dropping id).active ↔ i ∈ s.active ∧ i ≠ id :=
    (s.note _).mem_active_delist id
  constructor
  · exact h.nodup.filter _
  · intro i hi
    obtain ⟨hi, hne⟩ := (ha i).mp hi
    rcases h.listed i hi with (hX | hid) | hq
    · exact .inl hX
    · exact absurd hid hne
    · exact .inr hq
  · exact h.registered
  · intro i hi
    rw [hj, ha]
    by_cases hid : id = i
    · subst hid
      exact .inr (by rw [if_pos rfl]; exact hi)
    · rw [if_neg hid]
      exact (h.active i hi).imp_left fun hm => ⟨hm, Ne.symm hid⟩
  · intro i hi hm
    obtain ⟨hm, hne⟩ := (ha i).mp hm
    rw [hj, if_neg (Ne.symm hne)] at hi
    exact h.lost i hi hm

theorem sweep (h : Roster (Also X id) s) : Roster X (s.sweep id) := by
  unfold Stage.sweep
  split
  · next hr =>
    refine { h with listed := fun i hi => ?_ }
    rcases h.listed i hi with (hX | rfl) | hq
    · exact .inl hX
    · exact .inr ⟨h.registered i hr, hr⟩
    · exact .inr hq
  · next hr => exact h.delist (by simpa using hr)

/-- A registered sequence that was set running is put in the list. -/
theorem enlist (h : Roster X s) (ha : t.active = s.active) (hr : t.registry = s.registry)
    (hreg : s.Registered id) (hrun : (t.sequence id).running = true)
    (hq : ∀ i, i ≠ id → (t.sequence i).running = (s.sequence i).running)
    (hself : Sequencer.lost id t.journal = false)
    (hl : ∀ i, i ≠ id → Sequencer.lost i t.journal = Sequencer.lost i s.journal) :
    Roster X (t.enlist id) := by
  have hreg' : ∀ i, (t.enlist id).Registered i ↔ s.Registered i := fun i => by
    simp only [Stage.Registered, Stage.find?, Stage.registry_enlist, hr]
  have hmem : ∀ i, i ∈ (t.enlist id).active ↔ i = id ∨ i ∈ s.active := fun i => by
    rw [t.mem_active_enlist id i, ha]
  constructor
  · rw [Stage.active_enlist, ha]
    split
    · exact h.nodup
    · next hid =>
      refine List.nodup_append.mpr ⟨h.nodup, by simp, fun i hi j hj => ?_⟩
      rw [List.mem_singleton.mp hj]
      rintro rfl
      exact hid hi
  · intro i hi
    rw [hreg', Stage.sequence_enlist]
    by_cases hid : i = id
    · subst hid
      exact .inr ⟨hreg, hrun⟩
    · rw [hq i hid]
      exact h.listed i (((hmem i).mp hi).resolve_left hid)
  · intro i hi
    rw [hreg']
    by_cases hid : i = id
    · subst hid; exact hreg
    · rw [Stage.sequence_enlist, hq i hid] at hi
      exact h.registered i hi
  · intro i hi
    rw [hmem, Stage.journal_enlist]
    by_cases hid : i = id
    · exact .inl (.inl hid)
    · rw [Stage.sequence_enlist, hq i hid] at hi
      rw [hl i hid]
      exact (h.active i hi).imp_left .inr
  · intro i hi hm
    rw [Stage.journal_enlist] at hi
    by_cases hid : i = id
    · subst hid
      rw [hself] at hi
      exact absurd hi (by simp)
    · rw [hl i hid] at hi
      exact h.lost i hi (((hmem i).mp hm).resolve_left hid)

theorem enroll (h : Roster X s) {q : Sequence} (hq : q.running = false)
    (hn : s.find? q.name = none) : Roster X (s.enroll q) := by
  have hrun : ∀ i, ((s.enroll q).sequence i).running = (s.sequence i).running := by
    intro i
    rw [Stage.sequence_enroll]
    split
    · next hi => rw [hq, s.sequence_of_length_le (by omega)]
    · rfl
  have hreg : ∀ i, s.Registered i → (s.enroll q).Registered i := by
    rintro i ⟨name, hf⟩
    refine ⟨name, ?_⟩
    rw [Stage.find?_enroll, if_neg ?_]
    · exact hf
    · rintro rfl
      rw [hn] at hf
      exact absurd hf (by simp)
  constructor
  · exact h.nodup
  · intro i hi
    rw [hrun]
    exact (h.listed i hi).imp_right fun hq => ⟨hreg i hq.1, hq.2⟩
  · intro i hi
    rw [hrun] at hi
    exact hreg i (h.registered i hi)
  · intro i hi
    rw [hrun] at hi
    exact h.active i hi
  · exact h.lost

theorem afterPlay (h : Roster X s) (id : Nat) (q : Sequence) (part : Part)
    (r : Except Halt Status) : Roster X (s.afterPlay id q part r) := by
  have hr : Roster X (s.returning id q.current part) := h.modify id fun _ => rfl
  cases r with
  | error e => exact hr
  | ok status =>
    have hr : Roster X (Stage.note (.drove id status) _) := hr.note fun _ => rfl
    simp only [Stage.afterPlay, Stage.advancing]
    split
    · refine Roster.note (hr.modify id ?_) ?_ <;> exact fun _ => rfl
    · exact hr

theorem unregister (h : Roster X s) {name : String} (hn : s.find? name = some id)
    (hr : (s.sequence id).running = false) : Roster (Also X id) (s.unregister name) := by
  have hreg : ∀ i, i ≠ id → s.Registered i → (s.unregister name).Registered i := by
    rintro i hi ⟨n, hf⟩
    refine ⟨n, ?_⟩
    rw [Stage.find?_unregister, if_neg ?_]
    · exact hf
    · rintro rfl
      rw [hn] at hf
      exact hi (Option.some.inj hf).symm
  constructor
  · exact h.nodup
  · intro i hi
    by_cases hid : i = id
    · exact .inl (.inr hid)
    · exact (h.listed i hi).imp .inl fun hq => ⟨hreg i hid hq.1, hq.2⟩
  · intro i hi
    refine hreg i ?_ (h.registered i hi)
    rintro rfl
    rw [Stage.sequence_unregister, hr] at hi
    exact absurd hi (by simp)
  · exact h.active
  · exact h.lost

end Roster

/-- A sequence that is removed is not registered again by its callback: what is registered under
whatever name is another sequence. -/
theorem Leads.gone {own : Site → Prop} {calm : Bool} {s t : Stage} {name : String} {id : Nat}
    {n : Notice} (h : Leads own calm ((s.unregister name).ending id .stopped n) t) (hs : s.Sound)
    (hn : s.find? name = some id) : ¬ t.Registered id := by
  rintro ⟨name', hf⟩
  obtain ⟨hid, hname⟩ := hs.named _ _ hn
  have he := (h.lasts ((hs.unregister name).ending id _ n)).2
  rcases he.names name' id hf with hf | hl
  · have hsame : name' = name := (hs.named _ _ (s.find?_of_unregister hf)).2.symm.trans hname
    have hnone : (s.unregister name).find? name' = none := by
      rw [Stage.find?_unregister, if_pos hsame]
    rw [show ((s.unregister name).ending id .stopped n).find? name' = none from hnone] at hf
    exact absurd hf (by simp)
  · have hlt : id < ((s.unregister name).ending id .stopped n).sequences.length := by
      simpa [Stage.ending, Stage.notify] using hid
    omega

/-- Every calm course keeps the active list as the invariant has it, under whatever ends are being
told around it. -/
theorem Leads.roster {own : Site → Prop} {calm : Bool} {s t : Stage} (h : Leads own calm s t)
    (hcalm : calm = true) (hs : s.Sound) {X : Nat → Prop} (hX : Roster X s) : Roster X t := by
  induction h generalizing X with
  | aside h => exact hX.aside h
  | halt _ _ => exact absurd hcalm (by simp)
  | trans h _ ih ih' =>
    obtain ⟨hc, hc'⟩ := (Bool.and_eq_true _ _).mp hcalm
    exact ih' hc' (h.lasts hs).1 (ih hc hs hX)
  | widen _ _ ih => exact ih hcalm hs hX
  | called s c _ => exact hX.note fun _ => rfl
  | returned s r _ => exact hX.note fun _ => rfl
  | held s h _ => exact hX.congr rfl rfl (fun _ => rfl) fun _ => rfl
  | registered resolve o hn => exact hX.enroll rfl hn
  | @registeredHeld own s slot q hq hn =>
    obtain ⟨resolve, o, rfl⟩ := hs.held slot q hq
    have hu : Roster X ({ s with held := s.held.erase slot } : Stage) :=
      hX.congr rfl rfl (fun _ => rfl) fun _ => rfl
    exact hu.enroll rfl hn
  | checked s id => exact hX.modify id fun _ => rfl
  | paused s id f => exact hX.modify id fun _ => rfl
  | @started own s name id n hn hr =>
    have hid := (hs.named _ _ hn).1
    have hu : Roster X (((((s.modify id Sequence.begun).note (.notice n)).note (.began id)).note
        (.moved id .started 0)).enlist id) := by
      refine hX.enlist rfl rfl ⟨name, hn⟩ ?_ ?_ ?_ ?_
      · simp [s.sequence_modify_self _ hid, Sequence.begun, Sequence.rewound]
      · exact fun i hi => by simp [s.sequence_modify_ne _ hi]
      · simp [Sequencer.lost]
      · exact fun i hi => by simp [Sequencer.lost, Ne.symm hi]
    exact hu.note fun _ => rfl
  | @reset own s name id hn =>
    refine Roster.note (hX.modify id ?_) ?_ <;> exact fun _ => rfl
  | @restored own s name id index hn =>
    have hid := (hs.named _ _ hn).1
    refine hX.enlist rfl rfl ⟨name, hn⟩ ?_ ?_ ?_ ?_
    · simp [s.sequence_modify_self _ hid, Sequence.resumed]
    · exact fun i hi => by simp [s.sequence_modify_ne _ hi]
    · simp [Sequencer.lost]
    · exact fun i hi => by simp [Sequencer.lost, Ne.symm hi]
  | @stoppedIdle own s name id hn hr => exact (hX.also id).dropping
  | @stopped own calm s t name id n hn hr h ih =>
    subst hcalm
    have hid := (hs.named _ _ hn).1
    exact (ih rfl (hs.ending id _ n) (hX.ending hid .stopped n)).dropping
  | @removedIdle own s name id hn hr => exact (hX.unregister hn hr).delist hr
  | @removed own calm s t name id n hn hr h ih =>
    subst hcalm
    have hid := (hs.named _ _ hn).1
    have hu := (hX.ending hid .stopped n).unregister hn (s.running_ending_self hid .stopped n)
    have hu : Roster (Also X id) ((s.unregister name).ending id .stopped n) :=
      hu.mono fun i hi => hi.elim (fun hi => hi) .inr
    have ht := ih rfl ((hs.unregister name).ending id _ n) hu
    have hrun : (t.sequence id).running = false := by
      apply Bool.eq_false_iff.mpr
      exact fun hrun => h.gone hs hn (ht.registered id hrun)
    exact ht.delist hrun
  | passed _ => exact hX.note fun _ => rfl
  | @idle own s id hp hr => exact ((hX.note fun _ => rfl).also id).sweep
  | @completed own calm s t id n hd hc h ih =>
    subst hcalm
    have hid := s.lt_of_running hd.running
    have hu : Roster X (s.note (.turn id .completed)) := hX.note fun _ => rfl
    exact (ih rfl ((hs.note _).ending id _ n) (hu.ending hid .completed n)).sweep
  | @busy own s id hd hc hb => exact ((hX.note fun _ => rfl).also id).sweep
  | @driven own s t id part run dt r p hd hb hp hrun hpl h _ ih =>
    have hl : Roster X (s.lending id) := by
      refine Roster.modify (Roster.modify (Roster.note hX ?_) id ?_) id ?_ <;> exact fun _ => rfl
    have ht := (ih hcalm (hs.lending id) hl).afterPlay id (s.sequence id) ⟨part.step, p⟩ r
    rw [if_pos hcalm]
    exact (ht.also id).sweep

end Sequencer
