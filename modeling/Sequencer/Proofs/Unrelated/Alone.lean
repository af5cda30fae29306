import Mathlib.Data.List.Basic
import Sequencer.Proofs.Ledger.Session
import Sequencer.Proofs.Unrelated.Apart
import Sequencer.Proofs.Unrelated.Story

/-!
# With the others and alone

One stage has sequences of a name among others, on another stage they are alone. The relation between
the two says what they have in common: the sequences of the name, in order, with their places in the
active list, their barriers and their story. What is done to one of them on both stages keeps it, and
what is done to another sequence on the one stage keeps it as well.
-/

set_option autoImplicit false

namespace Sequencer

/-- What two tables have in common they have in common when the same is put into both. -/
theorem Table.get?_put_imp {κ α : Type} [DecidableEq κ] {t u : Table κ α} {k j : κ} {v : α}
    {r : Option α} (h : t.get? j = r → u.get? j = r) (hr : (t.put k v).get? j = r) :
    (u.put k v).get? j = r := by
  by_cases hj : j = k
  · subst hj
    rwa [Table.get?_put_self] at hr ⊢
  · rw [Table.get?_put_ne _ _ hj] at hr ⊢
    exact h hr

/-- Counters that are the same are so after an arrival. -/
theorem Board.count_arrive_congr {b c : Board} (barrier : String) {k : String}
    (h : c.count k = b.count k) : (c.arrive barrier).count k = (b.arrive barrier).count k := by
  by_cases hk : k = barrier
  · subst hk
    rw [Board.count_arrive_self, Board.count_arrive_self, h]
  · rw [Board.count_arrive_ne _ hk, Board.count_arrive_ne _ hk, h]

variable {name : String} {own : String → Prop} {ids : List Nat} {n : Nat}

inductive Held.Beside (name : String) (own : String → Prop) : Held → Option Held → Prop
  | mine {p q : Sequence} : p.Fits (.apart (· = name) own) → p.Akin q →
      Held.Beside name own (.sequence p) (some (.sequence q))
  | other {p : Sequence} {r : Option Held} : p.Fits (.apart (· ≠ name) (¬ own ·)) →
      Held.Beside name own (.sequence p) r
  | part {p : Part} {r : Option Held} : "host" ≠ name →
      p.step.Each (Step.KeepsTo (¬ own ·)) Question.IsOwn → Held.Beside name own (.part p) r
  | track {t : HeldTrack} {r : Option Held} : "host" ≠ name →
      stepsEach (Step.KeepsTo (¬ own ·)) Question.IsOwn t.steps → Held.Beside name own (.track t) r

def Stage.TellsBelow (n : Nat) (s : Stage) : Prop := ∀ e ∈ s.journal, ∀ i, e.about? = some i → i < n

structure Alone (name : String) (own : String → Prop) (ids : List Nat) (n : Nat) (s t : Stage) :
    Prop where
  total : s.sequences.length = n
  incarnations : s.incarnations name = ids
  length : t.sequences.length = ids.length
  akin : ∀ i j, ids[j]? = some i → (s.sequence i).Akin (t.sequence j)
  mine : ∀ i ∈ ids, (s.sequence i).Fits (.apart (· = name) own)
  others : ∀ i < n, i ∉ ids → (s.sequence i).Fits (.apart (· ≠ name) (¬ own ·))
  named : ∀ m i, m ≠ name → s.find? m = some i → i < n ∧ i ∉ ids
  find : Option.Rel (fun i j => ids[j]? = some i) (s.find? name) (t.find? name)
  listed : ∀ i ∈ s.active, i < n
  active : t.active = s.active.filterMap ids.idxOf?
  count : ∀ b, own b → t.barriers.count b = s.barriers.count b
  kept : ∀ key b, s.host.bookmarks.get? key = some b → b.sequence = name →
    t.host.bookmarks.get? key = some b
  unkept : ∀ key, s.host.bookmarks.get? key = none → t.host.bookmarks.get? key = none
  held : ∀ slot h, s.held.get? slot = some h → h.Beside name own (t.held.get? slot)
  dated : s.TellsBelow n
  datedAlone : t.TellsBelow ids.length
  story : t.story name = s.story name

namespace Stage.Backdrop

variable {s u : Stage}

theorem sequences (h : Stage.Backdrop s u) : u.sequences = s.sequences := by rw [h.same]

theorem sequence (h : Stage.Backdrop s u) (i : Nat) : u.sequence i = s.sequence i := by
  simp only [Stage.sequence, h.sequences]

theorem find? (h : Stage.Backdrop s u) (m : String) : u.find? m = s.find? m := by
  rw [h.same]
  rfl

theorem active (h : Stage.Backdrop s u) : u.active = s.active := by rw [h.same]

theorem barriers (h : Stage.Backdrop s u) : u.barriers = s.barriers := by rw [h.same]

theorem held (h : Stage.Backdrop s u) : u.held = s.held := by rw [h.same]

theorem incarnations (h : Stage.Backdrop s u) (m : String) :
    u.incarnations m = s.incarnations m := by
  simp only [Stage.incarnations, h.sequences, h.sequence]

end Stage.Backdrop

theorem Entry.about?_of_isIdle {e : Entry} (h : e.isIdle = true) : e.about? = none := by
  cases e <;> first | rfl | cases h

namespace Stage.TellsBelow

variable {s u : Stage}

theorem mono (h : s.TellsBelow n) {m : Nat} (hm : n ≤ m) : s.TellsBelow m :=
  fun e he i hi => Nat.lt_of_lt_of_le (h e he i hi) hm

theorem note (h : s.TellsBelow n) {e : Entry} (he : ∀ i, e.about? = some i → i < n) :
    (s.note e).TellsBelow n := fun e' he' i hi =>
  (List.mem_cons.mp he').elim (fun heq => he i (heq ▸ hi)) fun he' => h e' he' i hi

theorem backdrop (h : s.TellsBelow n) (hu : Stage.Backdrop s u) : u.TellsBelow n := by
  obtain ⟨l, hl, hidle⟩ := hu.idle
  intro e he i hi
  rw [hl] at he
  rcases List.mem_append.mp he with he | he
  · rw [e.about?_of_isIdle (hidle e he)] at hi
    exact absurd hi (by simp)
  · exact h e he i hi

end Stage.TellsBelow

theorem Entry.retold_of_isIdle {e : Entry} (h : e.isIdle = true) (name : String)
    (ids : List Nat) : e.retold name ids = none := by
  cases e <;> first | rfl | cases h

namespace Stage

variable {s : Stage} {e : Entry}

theorem story_note_untold (h : e.retold name (s.incarnations name) = none) :
    (s.note e).story name = s.story name :=
  List.filterMap_cons_none h

theorem story_backdrop {u : Stage} (h : Stage.Backdrop s u) (name : String) :
    u.story name = s.story name := by
  obtain ⟨l, hl, hidle⟩ := h.idle
  have hnone : l.filterMap (·.retold name (s.incarnations name)) = [] :=
    List.filterMap_eq_nil_iff.mpr fun e he => e.retold_of_isIdle (hidle e he) name _
  rw [story, story, h.incarnations, hl, List.filterMap_append, hnone, List.nil_append]

/-- The story does not change when another sequence is registered. -/
theorem story_enroll (q : Sequence)
    (hdated : s.TellsBelow s.sequences.length) :
    (s.enroll q).story name = s.story name := by
  apply List.filterMap_congr
  intro e he
  refine Entry.retold_congr fun i hi => ?_
  have hlt := hdated e he i hi
  rw [incarnations_enroll]
  split
  · exact idxOf?_append_ne (by omega)
  · rfl

end Stage

namespace Alone

variable {s t u : Stage} {i j : Nat}

theorem nodup (h : Alone name own ids n s t) : ids.Nodup := by
  rw [← h.incarnations]
  exact s.nodup_incarnations name

theorem mem (h : Alone name own ids n s t) : i ∈ ids ↔ i < n ∧ (s.sequence i).name = name := by
  rw [← h.incarnations, ← h.total]
  exact Stage.mem_incarnations

theorem lt (h : Alone name own ids n s t) (hm : ids[j]? = some i) : i < n :=
  (h.mem.mp (List.mem_of_getElem? hm)).1

theorem lt_alone (hm : ids[j]? = some i) : j < ids.length :=
  (List.getElem?_eq_some_iff.mp hm).1

theorem place (h : Alone name own ids n s t) (hm : ids[j]? = some i) : ids.idxOf? i = some j :=
  idxOf?_of_getElem? h.nodup hm

/-- On the stage where they are alone everyone is one of them. -/
theorem name_alone (h : Alone name own ids n s t) (hj : j < ids.length) :
    (t.sequence j).name = name := by
  have hm : ids[j]? = some ids[j] := List.getElem?_eq_getElem hj
  rw [(h.akin _ _ hm).name]
  exact (h.mine _ (List.getElem_mem hj)).named

theorem incarnations_alone (h : Alone name own ids n s t) :
    t.incarnations name = List.range ids.length := by
  rw [← h.length]
  exact Stage.incarnations_all fun j hj => h.name_alone (h.length ▸ hj)

theorem place_alone (h : Alone name own ids n s t) (hj : j < ids.length) :
    (t.incarnations name).idxOf? j = some j := by
  rw [h.incarnations_alone]
  exact idxOf?_of_getElem? List.nodup_range (by simp [hj])

/-! What is done to others -/

theorem backdropLeft (h : Alone name own ids n s t) (hu : Stage.Backdrop s u) :
    Alone name own ids n u t where
  total := by rw [hu.sequences, h.total]
  incarnations := by rw [hu.incarnations, h.incarnations]
  length := h.length
  akin i j hm := by rw [hu.sequence]; exact h.akin i j hm
  mine i hi := by rw [hu.sequence]; exact h.mine i hi
  others i hi hni := by rw [hu.sequence]; exact h.others i hi hni
  named m i hm hf := h.named m i hm (by rwa [hu.find?] at hf)
  find := by rw [hu.find?]; exact h.find
  listed := by rw [hu.active]; exact h.listed
  active := by rw [hu.active]; exact h.active
  count b hb := by rw [hu.barriers]; exact h.count b hb
  kept := by rw [hu.bookmarks]; exact h.kept
  unkept := by rw [hu.bookmarks]; exact h.unkept
  held := by rw [hu.held]; exact h.held
  dated := h.dated.backdrop hu
  datedAlone := h.datedAlone
  story := by rw [Stage.story_backdrop hu]; exact h.story

theorem backdropRight (h : Alone name own ids n s t) (hu : Stage.Backdrop t u) :
    Alone name own ids n s u where
  total := h.total
  incarnations := h.incarnations
  length := by rw [hu.sequences, h.length]
  akin i j hm := by rw [hu.sequence]; exact h.akin i j hm
  mine := h.mine
  others := h.others
  named := h.named
  find := by rw [hu.find?]; exact h.find
  listed := h.listed
  active := by rw [hu.active]; exact h.active
  count b hb := by rw [hu.barriers]; exact h.count b hb
  kept := by rw [hu.bookmarks]; exact h.kept
  unkept := by rw [hu.bookmarks]; exact h.unkept
  held := by rw [hu.held]; exact h.held
  dated := h.dated
  datedAlone := h.datedAlone.backdrop hu
  story := by rw [Stage.story_backdrop hu]; exact h.story

theorem noteOther (h : Alone name own ids n s t) {e : Entry}
    (he : e.retold name ids = none) (hlt : ∀ i, e.about? = some i → i < n) :
    Alone name own ids n (s.note e) t :=
  { h with
    dated := h.dated.note hlt
    story := by
      rw [Stage.story_note_untold (by rw [h.incarnations]; exact he)]
      exact h.story }

theorem modifyOther (h : Alone name own ids n s t) (hi : i < n) (hni : i ∉ ids)
    {f : Sequence → Sequence}
    (hf : (f (s.sequence i)).Fits (.apart (· ≠ name) (¬ own ·))) :
    Alone name own ids n (s.modify i f) t := by
  have hne : ∀ k ∈ ids, (s.modify i f).sequence k = s.sequence k := fun k hk =>
    s.sequence_modify_ne f fun heq => hni (heq ▸ hk)
  have hnames : (s.modify i f).incarnations name = s.incarnations name :=
    Stage.incarnations_modify (iff_of_false hf.named (h.others i hi hni).named)
  exact { h with
    total := by rw [Stage.length_modify, h.total]
    incarnations := by rw [hnames, h.incarnations]
    akin := fun k j hm => by
      rw [hne k (List.mem_of_getElem? hm)]
      exact h.akin k j hm
    mine := fun k hk => by
      rw [hne k hk]
      exact h.mine k hk
    others := fun k hk hnk => by
      by_cases hki : k = i
      · subst hki
        rw [s.sequence_modify_self f (h.total ▸ hk)]
        exact hf
      · rw [s.sequence_modify_ne f hki]
        exact h.others k hk hnk
    story := by
      show t.story name = s.journal.filterMap _
      rw [hnames]
      exact h.story }

theorem enlistOther (h : Alone name own ids n s t) (hi : i < n) (hni : i ∉ ids) :
    Alone name own ids n (s.enlist i) t := by
  unfold Stage.enlist
  split
  · exact h
  · exact { h with
      listed := fun k hk => (List.mem_append.mp hk).elim (h.listed k) fun hk => by
        rw [List.mem_singleton.mp hk]
        exact hi
      active := by
        rw [List.filterMap_append, h.active]
        simp [List.idxOf?_eq_none_iff.mpr hni] }

theorem delistOther (h : Alone name own ids n s t) (hni : i ∉ ids) :
    Alone name own ids n (s.delist i) t :=
  { h with
    listed := fun k hk => h.listed k ((s.mem_active_delist i k).mp hk).1
    active := by
      rw [h.active, Stage.delist, List.filterMap_filter]
      apply List.filterMap_congr
      intro k _
      by_cases hk : k = i
      · simp [hk, List.idxOf?_eq_none_iff.mpr hni]
      · simp [hk] }

theorem unregisterOther (h : Alone name own ids n s t) {m : String} (hm : m ≠ name) :
    Alone name own ids n (s.unregister m) t :=
  { h with
    named := fun k i hk hf => h.named k i hk (s.find?_of_unregister hf)
    find := by
      rw [Stage.find?_unregister, if_neg (Ne.symm hm)]
      exact h.find }

theorem arriveOther (h : Alone name own ids n s t) {b : String} (hb : ¬ own b) :
    Alone name own ids n (s.arrive b) t := by
  have hnoted : Alone name own ids n (s.note (.arrived b)) t := h.noteOther rfl fun _ hi => nomatch hi
  refine { hnoted with count := fun c hc => ?_ }
  have hne : c ≠ b := fun heq => hb (heq ▸ hc)
  show t.barriers.count c = (s.barriers.arrive b).count c
  rw [Board.count_arrive_ne _ hne]
  exact h.count c hc

theorem enrollOther (h : Alone name own ids n s t) {q : Sequence}
    (hq : q.Fits (.apart (· ≠ name) (¬ own ·))) : Alone name own ids (n + 1) (s.enroll q) t := by
  have hold : ∀ k < n, (s.enroll q).sequence k = s.sequence k := fun k hk => by
    rw [Stage.sequence_enroll, if_neg (by rw [h.total]; omega)]
  have hlt : ∀ k ∈ ids, k < n := fun k hk => (h.mem.mp hk).1
  exact {
    total := by rw [Stage.length_enroll, h.total]
    incarnations := by rw [Stage.incarnations_enroll, if_neg hq.named, h.incarnations]
    length := h.length
    akin := fun k j hm => by
      rw [hold k (h.lt hm)]
      exact h.akin k j hm
    mine := fun k hk => by
      rw [hold k (hlt k hk)]
      exact h.mine k hk
    others := fun k hk hnk => by
      by_cases hkn : k = n
      · rw [Stage.sequence_enroll, if_pos (by rw [h.total, hkn])]
        exact hq
      · rw [hold k (by omega)]
        exact h.others k (by omega) hnk
    named := fun m k hm hf => by
      rw [Stage.find?_enroll] at hf
      split at hf
      · obtain rfl := Option.some.inj hf
        rw [h.total]
        exact ⟨by omega, fun hk => absurd (hlt n hk) (by omega)⟩
      · obtain ⟨hk, hnk⟩ := h.named m k hm hf
        exact ⟨by omega, hnk⟩
    find := by
      rw [Stage.find?_enroll, if_neg (Ne.symm hq.named)]
      exact h.find
    listed := fun k hk => Nat.lt_succ_of_lt (h.listed k hk)
    active := h.active
    count := h.count
    kept := h.kept
    unkept := h.unkept
    held := h.held
    dated := h.dated.mono (Nat.le_succ n)
    datedAlone := h.datedAlone
    story := by
      rw [s.story_enroll q (h.total ▸ h.dated)]
      exact h.story }

theorem keepOther (h : Alone name own ids n s t) (key : String) {b : Bookmark}
    (hb : b.sequence ≠ name) :
    Alone name own ids n
      { s with host := { s.host with bookmarks := s.host.bookmarks.put key b } } t :=
  { h with
    kept := fun k c hk hc =>
      (Table.get?_of_put hk).elim (fun heq => absurd (heq ▸ hc) hb) fun hk => h.kept k c hk hc
    unkept := fun k hk => by
      by_cases heq : k = key
      · subst heq
        rw [Table.get?_put_self] at hk
        exact absurd hk (by simp)
      · rw [Table.get?_put_ne _ _ heq] at hk
        exact h.unkept k hk }

theorem holdOther (h : Alone name own ids n s t) (slot : String) {x : Held}
    (hx : ∀ r, x.Beside name own r) :
    Alone name own ids n { s with held := s.held.put slot x } t :=
  { h with
    held := fun k y hk =>
      (Table.get?_of_put hk).elim (fun heq => heq ▸ hx _) fun hk => h.held k y hk }

theorem emptyOther (h : Alone name own ids n s t) (slot : String) :
    Alone name own ids n { s with held := s.held.erase slot } t :=
  { h with held := fun k y hk => h.held k y (Table.get?_of_erase hk) }

/-! What is done to one of them on both stages -/

theorem note (h : Alone name own ids n s t) {e e' : Entry}
    (he : Entry.Mates (· = name) (fun i j => ids[j]? = some i) e e') :
    Alone name own ids n (s.note e) (t.note e') := by
  have htold : e'.retold name (t.incarnations name) = e.retold name (s.incarnations name) := by
    refine he.retold fun i j hm => ?_
    rw [h.place_alone (lt_alone hm), h.incarnations, h.place hm]
  have habout := he.about?
  exact { h with
    dated := h.dated.note fun i hi => by
      rw [hi] at habout
      generalize e'.about? = a at habout
      cases habout with
      | some hm => exact h.lt hm
    datedAlone := h.datedAlone.note fun j hj => by
      rw [hj] at habout
      generalize e.about? = a at habout
      cases habout with
      | some hm => exact lt_alone hm
    story := by
      have hstory := h.story
      simp only [Stage.story] at hstory
      show (e' :: t.journal).filterMap (·.retold name (t.incarnations name)) =
        (e :: s.journal).filterMap (·.retold name (s.incarnations name))
      rw [List.filterMap_cons, List.filterMap_cons, htold, hstory] }

theorem modify (h : Alone name own ids n s t) (hm : ids[j]? = some i) {f g : Sequence → Sequence}
    (hfg : (f (s.sequence i)).Akin (g (t.sequence j)))
    (hf : (f (s.sequence i)).Fits (.apart (· = name) own)) :
    Alone name own ids n (s.modify i f) (t.modify j g) := by
  have hi : i ∈ ids := List.mem_of_getElem? hm
  have hj : j < t.sequences.length := by rw [h.length]; exact lt_alone hm
  have hself : (s.modify i f).sequence i = f (s.sequence i) :=
    s.sequence_modify_self f (by rw [h.total]; exact h.lt hm)
  have hnames : (s.modify i f).incarnations name = s.incarnations name :=
    Stage.incarnations_modify (iff_of_true hf.named (h.mine i hi).named)
  have hnamesAlone : (t.modify j g).incarnations name = t.incarnations name :=
    Stage.incarnations_modify (iff_of_true (hfg.name.trans hf.named) (h.name_alone (lt_alone hm)))
  exact { h with
    total := by rw [Stage.length_modify, h.total]
    incarnations := by rw [hnames, h.incarnations]
    length := by rw [Stage.length_modify, h.length]
    akin := fun k l hkl => by
      by_cases hk : k = i
      · subst hk
        obtain rfl : l = j := Option.some.inj ((h.place hkl).symm.trans (h.place hm))
        rw [hself, t.sequence_modify_self g hj]
        exact hfg
      · have hl : l ≠ j := fun heq => hk (Option.some.inj (hkl.symm.trans (heq ▸ hm)))
        rw [s.sequence_modify_ne f hk, t.sequence_modify_ne g hl]
        exact h.akin k l hkl
    mine := fun k hk => by
      by_cases hki : k = i
      · rw [hki, hself]
        exact hf
      · rw [s.sequence_modify_ne f hki]
        exact h.mine k hk
    others := fun k hk hnk => by
      have hne : k ≠ i := fun heq => hnk (heq ▸ hi)
      rw [s.sequence_modify_ne f hne]
      exact h.others k hk hnk
    story := by
      show t.journal.filterMap _ = s.journal.filterMap _
      rw [hnames, hnamesAlone]
      exact h.story }

theorem mem_active (h : Alone name own ids n s t) (hm : ids[j]? = some i) :
    j ∈ t.active ↔ i ∈ s.active := by
  rw [h.active, List.mem_filterMap]
  constructor
  · rintro ⟨k, hk, hplace⟩
    obtain rfl : k = i := Option.some.inj ((getElem?_of_idxOf? hplace).symm.trans hm)
    exact hk
  · exact fun hi => ⟨i, hi, h.place hm⟩

theorem enlist (h : Alone name own ids n s t) (hm : ids[j]? = some i) :
    Alone name own ids n (s.enlist i) (t.enlist j) := by
  unfold Stage.enlist
  by_cases hi : i ∈ s.active
  · rw [if_pos hi, if_pos ((h.mem_active hm).mpr hi)]
    exact h
  · rw [if_neg hi, if_neg fun hj => hi ((h.mem_active hm).mp hj)]
    exact { h with
      listed := fun k hk => (List.mem_append.mp hk).elim (h.listed k) fun hk => by
        rw [List.mem_singleton.mp hk]
        exact h.lt hm
      active := by
        rw [List.filterMap_append, h.active]
        simp [h.place hm] }

theorem delist (h : Alone name own ids n s t) (hm : ids[j]? = some i) :
    Alone name own ids n (s.delist i) (t.delist j) :=
  { h with
    listed := fun k hk => h.listed k ((s.mem_active_delist i k).mp hk).1
    active := by
      simp only [Stage.delist, h.active, List.filterMap_filter, List.filter_filterMap]
      apply List.filterMap_congr
      intro k _
      by_cases hk : k = i
      · simp [hk, h.place hm]
      · cases hp : ids.idxOf? k with
        | none => simp
        | some l =>
          have hl : l ≠ j := fun heq =>
            hk (Option.some.inj ((getElem?_of_idxOf? (heq ▸ hp)).symm.trans hm))
          simp [hk, hl] }

theorem unregister (h : Alone name own ids n s t) :
    Alone name own ids n (s.unregister name) (t.unregister name) :=
  { h with
    named := fun k i hk hf => h.named k i hk (s.find?_of_unregister hf)
    find := by
      rw [Stage.find?_unregister, Stage.find?_unregister, if_pos rfl, if_pos rfl]
      exact .none }

theorem keep (h : Alone name own ids n s t) (key : String) (b : Bookmark) :
    Alone name own ids n
      { s with host := { s.host with bookmarks := s.host.bookmarks.put key b } }
      { t with host := { t.host with bookmarks := t.host.bookmarks.put key b } } :=
  { h with
    kept := fun k c hk hc => Table.get?_put_imp (fun hk => h.kept k c hk hc) hk
    unkept := fun k hk => Table.get?_put_imp (h.unkept k) hk }

theorem hold (h : Alone name own ids n s t) (slot : String) {p q : Sequence} (hpq : p.Akin q)
    (hp : p.Fits (.apart (· = name) own)) :
    Alone name own ids n { s with held := s.held.put slot (.sequence p) }
      { t with held := t.held.put slot (.sequence q) } :=
  { h with
    held := fun k y hk => by
      by_cases heq : k = slot
      · subst heq
        rw [Table.get?_put_self] at hk ⊢
        exact Option.some.inj hk ▸ .mine hp hpq
      · rw [Table.get?_put_ne _ _ heq] at hk ⊢
        exact h.held k y hk }

theorem empty (h : Alone name own ids n s t) (slot : String) :
    Alone name own ids n { s with held := s.held.erase slot }
      { t with held := t.held.erase slot } :=
  { h with
    held := fun k y hk => by
      have hne : k ≠ slot := fun heq => by
        rw [heq, Table.get?_erase_self] at hk
        exact absurd hk (by simp)
      rw [Table.get?_erase_ne _ hne] at hk ⊢
      exact h.held k y hk }

theorem arrive (h : Alone name own ids n s t) (b : String) :
    Alone name own ids n (s.arrive b) (t.arrive b) :=
  { h.note (.bare (e := .arrived b) rfl) with
    count := fun c hc => Board.count_arrive_congr b (h.count c hc) }

theorem enroll (h : Alone name own ids n s t) {p q : Sequence} (hpq : p.Akin q)
    (hp : p.Fits (.apart (· = name) own)) :
    Alone name own (ids ++ [n]) (n + 1) (s.enroll p) (t.enroll q) := by
  have hpname : p.name = name := hp.named
  have hqname : q.name = name := hpq.name.trans hpname
  have hlt : ∀ k ∈ ids, k < n := fun k hk => (h.mem.mp hk).1
  have hold : ∀ k < n, (s.enroll p).sequence k = s.sequence k := fun k hk => by
    rw [Stage.sequence_enroll, if_neg (by rw [h.total]; omega)]
  have hnew : (s.enroll p).sequence n = p := by
    rw [Stage.sequence_enroll, if_pos h.total.symm]
  exact {
    total := by rw [Stage.length_enroll, h.total]
    incarnations := by
      rw [Stage.incarnations_enroll, if_pos hpname, h.incarnations, h.total]
    length := by rw [Stage.length_enroll, h.length, List.length_append, List.length_singleton]
    akin := fun k l hkl => by
      by_cases hl : l < ids.length
      · rw [List.getElem?_append_left hl] at hkl
        rw [hold k (h.lt hkl), Stage.sequence_enroll, if_neg (by rw [h.length]; omega)]
        exact h.akin k l hkl
      · rw [List.getElem?_append_right (by omega), List.getElem?_singleton] at hkl
        split at hkl
        · obtain rfl := Option.some.inj hkl
          rw [hnew, Stage.sequence_enroll, if_pos (by rw [h.length]; omega)]
          exact hpq
        · exact absurd hkl (by simp)
    mine := fun k hk => by
      rcases List.mem_append.mp hk with hk | hk
      · rw [hold k (hlt k hk)]
        exact h.mine k hk
      · rw [List.mem_singleton.mp hk, hnew]
        exact hp
    others := fun k hk hnk => by
      have hkn : k ≠ n := fun heq => hnk (by simp [heq])
      rw [hold k (by omega)]
      exact h.others k (by omega) fun hk => hnk (List.mem_append_left _ hk)
    named := fun m k hm hf => by
      rw [Stage.find?_enroll, if_neg (hpname ▸ hm)] at hf
      obtain ⟨hk, hnk⟩ := h.named m k hm hf
      refine ⟨by omega, fun hmem => ?_⟩
      rcases List.mem_append.mp hmem with hmem | hmem
      · exact hnk hmem
      · exact absurd (List.mem_singleton.mp hmem) (by omega)
    find := by
      rw [Stage.find?_enroll, Stage.find?_enroll, if_pos hpname.symm, if_pos hqname.symm, h.total,
        h.length]
      exact .some (by simp)
    listed := fun k hk => Nat.lt_succ_of_lt (h.listed k hk)
    active := by
      show t.active = s.active.filterMap _
      rw [h.active]
      apply List.filterMap_congr
      intro k hk
      have := h.listed k hk
      exact (idxOf?_append_ne (by omega)).symm
    count := h.count
    kept := h.kept
    unkept := h.unkept
    held := h.held
    dated := h.dated.mono (Nat.le_succ n)
    datedAlone := h.datedAlone.mono (by simp)
    story := by
      rw [s.story_enroll p (h.total ▸ h.dated), t.story_enroll q (h.length ▸ h.datedAlone)]
      exact h.story }

end Alone

end Sequencer
