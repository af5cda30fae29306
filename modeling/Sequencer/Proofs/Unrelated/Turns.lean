import Sequencer.Proofs.Unrelated.Alone

/-!
# Turns of one and turns of the others

The sequences of a name accord with themselves alone. While another sequence is operated on, the stage
stays in the same relation to the one where it is missing. So a frame, in which all of them have their
turns, goes for the sequences of the name as it goes where they are alone.
-/

set_option autoImplicit false

namespace Sequencer

variable {name : String} {own : String → Prop} {ids : List Nat} {n : Nat}

def Accord.kin (name : String) (own : String → Prop) (ids : List Nat) (n : Nat) : Accord where
  rel := Alone name own ids n
  mate i j := ids[j]? = some i
  cast := .apart (· = name) own
  calm := True
  akin h hm := h.akin _ _ hm
  fits h hm := h.mine _ (List.mem_of_getElem? hm)
  find h hn := hn ▸ h.find
  modify h hm hf hfits := h.modify hm hf hfits
  enlist h hm := h.enlist hm
  delist h hm := h.delist hm
  unregister h hn := hn ▸ h.unregister
  note h he := h.note he
  noticeLeft _ h := h.backdropLeft (.note _ rfl)
  noticeRight _ h := h.backdropRight (.note _ rfl)
  publish e h := (h.backdropLeft (Act.IsHarmless.publish e _).2).backdropRight
    (Act.IsHarmless.publish e _).2

structure Bystanders (name : String) (own : String → Prop) (ids : List Nat) (n : Nat)
    (alone s t : Stage) : Prop where
  left : Alone name own ids n s alone
  right : Alone name own ids n t alone
  akin : ∀ i, i ∉ ids → (s.sequence i).Akin (t.sequence i)
  find : ∀ m, m ≠ name → t.find? m = s.find? m
  count : ∀ b, ¬ own b → t.barriers.count b = s.barriers.count b

namespace Bystanders

variable {alone s t u : Stage} {i : Nat}

theorem refl (h : Alone name own ids n s alone) : Bystanders name own ids n alone s s :=
  ⟨h, h, fun _ _ => .refl _, fun _ _ => rfl, fun _ _ => rfl⟩

theorem backdropLeft (h : Bystanders name own ids n alone s t) (hu : Stage.Backdrop s u) :
    Bystanders name own ids n alone u t where
  left := h.left.backdropLeft hu
  right := h.right
  akin i hi := by rw [hu.sequence]; exact h.akin i hi
  find m hm := by rw [hu.find?]; exact h.find m hm
  count b hb := by rw [hu.barriers]; exact h.count b hb

theorem backdropRight (h : Bystanders name own ids n alone s t) (hu : Stage.Backdrop t u) :
    Bystanders name own ids n alone s u where
  left := h.left
  right := h.right.backdropLeft hu
  akin i hi := by rw [hu.sequence]; exact h.akin i hi
  find m hm := by rw [hu.find?]; exact h.find m hm
  count b hb := by rw [hu.barriers]; exact h.count b hb

theorem note (h : Bystanders name own ids n alone s t) {e e' : Entry}
    (he : Entry.Mates (· ≠ name) (fun i j => i = j ∧ i < n ∧ i ∉ ids) e e') :
    Bystanders name own ids n alone (s.note e) (t.note e') := by
  have huntold : e'.retold name ids = none :=
    he.untold (fun _ h => h) fun i j hm => hm.1 ▸ List.idxOf?_eq_none_iff.mpr hm.2.2
  have hsame : e'.retold name ids = e.retold name ids := he.retold fun i j hm => by rw [hm.1]
  have habout := he.about?
  refine ⟨h.left.noteOther (hsame ▸ huntold) fun i hi => ?_,
    h.right.noteOther huntold fun i hi => ?_, h.akin, h.find, h.count⟩
  · rw [hi] at habout
    generalize e'.about? = a at habout
    cases habout with
    | some hm => exact hm.2.1
  · rw [hi] at habout
    generalize e.about? = a at habout
    cases habout with
    | some hm => exact hm.1 ▸ hm.2.1

theorem modify (h : Bystanders name own ids n alone s t) (hi : i < n) (hni : i ∉ ids)
    {f g : Sequence → Sequence} (hfg : (f (s.sequence i)).Akin (g (t.sequence i)))
    (hf : (f (s.sequence i)).Fits (.apart (· ≠ name) (¬ own ·)))
    (hg : (g (t.sequence i)).Fits (.apart (· ≠ name) (¬ own ·))) :
    Bystanders name own ids n alone (s.modify i f) (t.modify i g) where
  left := h.left.modifyOther hi hni hf
  right := h.right.modifyOther hi hni hg
  akin k hk := by
    by_cases hki : k = i
    · subst hki
      rw [s.sequence_modify_self f (h.left.total ▸ hi), t.sequence_modify_self g (h.right.total ▸ hi)]
      exact hfg
    · rw [s.sequence_modify_ne f hki, t.sequence_modify_ne g hki]
      exact h.akin k hk
  find := h.find
  count := h.count

theorem enlist (h : Bystanders name own ids n alone s t) (hi : i < n) (hni : i ∉ ids) :
    Bystanders name own ids n alone (s.enlist i) (t.enlist i) where
  left := h.left.enlistOther hi hni
  right := h.right.enlistOther hi hni
  akin k hk := by simpa using h.akin k hk
  find m hm := by simpa using h.find m hm
  count b hb := by
    have hsame : ∀ u : Stage, (u.enlist i).barriers = u.barriers := fun u => by
      unfold Stage.enlist
      split <;> rfl
    rw [hsame, hsame]
    exact h.count b hb

theorem delist (h : Bystanders name own ids n alone s t) (hni : i ∉ ids) :
    Bystanders name own ids n alone (s.delist i) (t.delist i) :=
  ⟨h.left.delistOther hni, h.right.delistOther hni, h.akin, h.find, h.count⟩

theorem unregister (h : Bystanders name own ids n alone s t) {m : String} (hm : m ≠ name) :
    Bystanders name own ids n alone (s.unregister m) (t.unregister m) where
  left := h.left.unregisterOther hm
  right := h.right.unregisterOther hm
  akin := h.akin
  find k hk := by rw [Stage.find?_unregister, Stage.find?_unregister, h.find k hk]
  count := h.count

theorem arrive (h : Bystanders name own ids n alone s t) {b : String} (hb : ¬ own b) :
    Bystanders name own ids n alone (s.arrive b) (t.arrive b) where
  left := h.left.arriveOther hb
  right := h.right.arriveOther hb
  akin := h.akin
  find := h.find
  count c hc := Board.count_arrive_congr b (h.count c hc)

end Bystanders

def Accord.bystanders (name : String) (own : String → Prop) (ids : List Nat) (n : Nat)
    (alone : Stage) : Accord where
  rel := Bystanders name own ids n alone
  mate i j := i = j ∧ i < n ∧ i ∉ ids
  cast := .apart (· ≠ name) (¬ own ·)
  calm := True
  akin h hm := hm.1 ▸ h.akin _ hm.2.2
  fits h hm := h.left.others _ hm.2.1 hm.2.2
  find {s t m} h hn := by
    have hs := h.left.named m
    rw [h.find m hn]
    cases hf : s.find? m with
    | none => exact .none
    | some i => exact .some ⟨rfl, hs i hn hf⟩
  modify {s t i j f g} h hm hfg hf := by
    obtain ⟨rfl, hi, hni⟩ := hm
    exact h.modify hi hni hfg hf (hfg.fits hf)
  enlist h hm := by
    obtain ⟨rfl, hi, hni⟩ := hm
    exact h.enlist hi hni
  delist h hm := by
    obtain ⟨rfl, -, hni⟩ := hm
    exact h.delist hni
  unregister h hn := h.unregister hn
  note h he := h.note he
  noticeLeft _ h := h.backdropLeft (.note _ rfl)
  noticeRight _ h := h.backdropRight (.note _ rfl)
  publish e h := (h.backdropLeft (Act.IsHarmless.publish e _).2).backdropRight
    (Act.IsHarmless.publish e _).2

section

variable {run : Runner} (hrun : run.SparesOthers)

include hrun

theorem Accord.kin_carries : (Accord.kin name own ids n).Carries run run :=
  Accord.carries_apart hrun hrun rfl (fun h hu => h.backdropLeft hu)
    (fun h hu => h.backdropRight hu) (fun h hb => h.count _ hb) fun h _ => h.arrive _

theorem Accord.bystanders_carries (alone : Stage) :
    (Accord.bystanders name own ids n alone).Carries run run :=
  Accord.carries_apart hrun hrun rfl (fun h hu => h.backdropLeft hu)
    (fun h hu => h.backdropRight hu) (fun h hb => h.count _ hb) fun h hb => h.arrive hb

end

def Act.Unnoticed {α : Type} (name : String) (own : String → Prop) (ids : List Nat) (n : Nat)
    (x : Act α) : Prop :=
  ∀ s t, Alone name own ids n s t → (x s).1.isOk = true ∧ Alone name own ids n (x s).2 t

theorem Act.Unnoticed.of_accords {α : Type} {x : Act α}
    (h : ∀ alone, Act.Accords (.bystanders name own ids n alone) x x) :
    x.Unnoticed name own ids n := by
  intro s t hst
  obtain ⟨hr, hx⟩ := h t s s (.refl hst)
  exact ⟨hr.isOk trivial, hx.left⟩

/-- What goes unnoticed may come first. -/
theorem Act.Unnoticed.bind {α β : Type} {x : Act α} {f : α → Act β} {y : Act β}
    (hx : x.Unnoticed name own ids n) (hf : ∀ a, Act.Accords (.kin name own ids n) (f a) y) :
    Act.Accords (.kin name own ids n) (x >>= f) y := by
  intro s t hst
  have hxs := hx s t hst
  rw [Act.bind_apply]
  rcases hs : x s with ⟨e | a, u⟩ <;> rw [hs] at hxs
  · exact absurd hxs.1 Bool.false_ne_true
  · exact hf a u t hxs.2

namespace Conductor

variable {run : Runner} (hrun : run.SparesOthers)

include hrun

/-- The turns of the others go unnoticed, and those of the sequences of the name accord. -/
theorem takeTurns_kin (dt : Float32) (l : List Nat) (hl : ∀ i ∈ l, i < n) :
    Act.Accords (.kin name own ids n) (takeTurns run dt l)
      (takeTurns run dt (l.filterMap ids.idxOf?)) := by
  induction l with
  | nil => exact .pure ()
  | cons i rest ih =>
    have ih := ih fun k hk => hl k (List.mem_cons_of_mem i hk)
    cases hp : ids.idxOf? i with
    | none =>
      have hother : (takeTurn run dt i).Unnoticed name own ids n := .of_accords fun alone =>
        takeTurn_accords (Accord.bystanders_carries hrun alone)
          ⟨rfl, hl i List.mem_cons_self, List.idxOf?_eq_none_iff.mp hp⟩ dt
      have hskip : (i :: rest).filterMap ids.idxOf? = rest.filterMap ids.idxOf? :=
        List.filterMap_cons_none hp
      rw [hskip]
      exact hother.bind fun _ => ih
    | some j =>
      have hplaced : (i :: rest).filterMap ids.idxOf? = j :: rest.filterMap ids.idxOf? :=
        List.filterMap_cons_some hp
      rw [hplaced]
      exact .bind (takeTurn_accords (Accord.kin_carries hrun) (getElem?_of_idxOf? hp) dt)
        fun _ => ih

theorem tick_kin (dt : Float32) :
    Act.Accords (.kin name own ids n) (tick run dt) (tick run dt) := by
  refine .read_bind fun s t (h : Alone name own ids n s t) => ?_
  rw [h.active]
  exact takeTurns_kin hrun dt s.active h.listed s t h

theorem tickMany_kin (dt : Float32) (first count : Nat) :
    Act.Accords (.kin name own ids n) (tickMany run dt first count)
      (tickMany run dt first count) := by
  induction count generalizing first with
  | zero => exact .pure ()
  | succ count ih =>
    exact .bind (.note (.bare rfl)) fun _ => .bind (tick_kin hrun dt) fun _ => ih _

end Conductor

end Sequencer
