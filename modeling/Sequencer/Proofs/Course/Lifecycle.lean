import Sequencer.Proofs.Course.Acts

/-!
# Courses of the operations on sequences

Starting, stopping, removing and the other operations by name each follow a course, whatever
carries out the commands of their callbacks, as long as that follows courses itself.
-/

set_option autoImplicit false

namespace Sequencer

open Site (Nowhere)

/-- Wherever the act is done, what it does is a course, and a calm one if it does not halt. -/
def Act.Follows {α : Type} (own : Site → Prop) (act : Act α) : Prop :=
  ∀ s, Leads own (act s).1.isOk s (act s).2

def Play.Follows {π α : Type} (own : Site → Prop) (play : Play π α) : Prop :=
  ∀ x, Leads own (play x).1.isOk x.2 (play x).2.2

def Runner.Follows (run : Runner) : Prop := ∀ c, (run c).Follows Nowhere

theorem Leads.refl {own : Site → Prop} (s : Stage) : Leads own true s s := .aside (.refl s)

theorem Leads.remark {own : Site → Prop} {s t : Stage} (calm : Bool) (h : Aside s t) :
    Leads own calm s t := by
  cases calm with
  | true => exact .aside h
  | false => exact (Leads.aside h).halt

theorem Leads.then {own : Site → Prop} {calm : Bool} {s t u : Stage} (h : Leads own true s t)
    (h' : Leads own calm t u) : Leads own calm s u := h.trans h'

theorem Leads.anywhere {own : Site → Prop} {calm : Bool} {s t : Stage}
    (h : Leads Nowhere calm s t) : Leads own calm s t := h.widen fun _ => False.elim

namespace Act.Follows

variable {α β : Type} {own : Site → Prop}

theorem of_remarks {act : Act α} (h : act.Remarks) : act.Follows own := fun s => .remark _ (h s)

theorem pure (a : α) : (pure a : Act α).Follows own := of_remarks (.pure a)

theorem bind {x : Act α} {f : α → Act β} (hx : x.Follows own) (hf : ∀ a, (f a).Follows own) :
    (x >>= f).Follows own := by
  intro s
  have h := hx s
  rw [Act.bind_apply]
  rcases hs : x s with ⟨a | a, t⟩ <;> rw [hs] at h
  · exact h
  · exact h.then (hf a t)

/-- A course that has led somewhere goes on with whatever comes next. -/
theorem bind_from {x : Act α} {f : α → Act β} {s t : Stage}
    (hx : Leads own (x t).1.isOk s (x t).2) (hf : ∀ a, (f a).Follows own) :
    Leads own ((x >>= f) t).1.isOk s ((x >>= f) t).2 := by
  rw [Act.bind_apply]
  rcases ht : x t with ⟨a | a, u⟩ <;> rw [ht] at hx
  · exact hx
  · exact hx.then (hf a u)

end Act.Follows

variable {own : Site → Prop} {run : Runner}

theorem performAll_follows (hrun : run.Follows) (l : List Command) :
    (performAll run l).Follows own := by
  induction l with
  | nil => exact .pure ()
  | cons c rest ih =>
    exact .bind (fun s => (hrun c s).anywhere) fun _ => .bind (.of_remarks (.note rfl)) fun _ => ih

theorem inquire_apply (run : Runner) (asker : Asker) (owner : String) (polls : Nat)
    (q : Question Command) (s : Stage) : inquire run asker owner polls q s =
      match performAll run q.code s with
      | (.ok _, t) => ask asker owner polls q.toCondition t
      | (.error h, t) => (.error h, t) := by
  rw [inquire, Act.bind_apply]
  rcases performAll run q.code s with ⟨h | _, t⟩ <;> rfl

theorem inquire_follows (hrun : run.Follows) (asker : Asker) (owner : String) (polls : Nat)
    (q : Question Command) : (inquire run asker owner polls q).Follows own :=
  .bind (performAll_follows hrun q.code) fun _ => .of_remarks (ask_remarks asker owner polls _)

namespace Conductor

theorem onNamed_some {α : Type} {name : String} {id : Nat} {s : Stage}
    (h : s.find? name = some id) (absent : α) (act : Nat → Act α) :
    onNamed name absent act s = act id s := by
  simp only [onNamed, locate, Act.bind_apply, Act.read, h]
  rfl

theorem onNamed_none {α : Type} {name : String} {s : Stage} (h : s.find? name = none)
    (absent : α) (act : Nat → Act α) :
    onNamed name absent act s = (.ok absent, s.note (.notice (.unknown name))) := by
  simp only [onNamed, locate, Act.bind_apply, Act.read, h]
  rfl

theorem onNamed_follows {α : Type} {name : String} {absent : α} {act : Nat → Act α}
    (h : ∀ s id, s.find? name = some id → Leads own (act id s).1.isOk s (act id s).2) :
    (onNamed name absent act).Follows own := by
  intro s
  cases hs : s.find? name with
  | none =>
    rw [onNamed_none hs]
    exact .aside (.note s rfl)
  | some id =>
    rw [onNamed_some hs]
    exact h s id hs

/-- The callback runs on the stage on which it has been noted. -/
theorem notify_apply (run : Runner) (id : Nat) (hook : Hook) (s : Stage) :
    notify run id hook s =
      performAll run (((s.sequence id).hook hook).getD []) (s.notify id hook) := by
  simp only [notify, Act.bind_apply, Act.read, Act.note, Act.change]
  rfl

theorem notify_leads (hrun : run.Follows) (id : Nat) (hook : Hook) (s : Stage) :
    Leads own (notify run id hook s).1.isOk (s.notify id hook) (notify run id hook s).2 := by
  rw [notify_apply]
  exact performAll_follows hrun _ _

theorem tryOut_cases (own : Site → Prop) {id : Nat} {q : Sequence} {s u : Stage}
    {r : Except Halt (Except Refusal Bool)} (h : tryOut id q s = (r, u)) :
    (r ≠ .ok (.ok true) ∧ Leads own r.isOk s u) ∨
      ∃ t n, Leads own true s t ∧ t.registry = s.registry ∧
        (t.sequence id).running = (s.sequence id).running ∧ r = .ok (.ok true) ∧
        u = (((t.modify id Sequence.begun).note (.notice n)).note (.began id)).note
          (.moved id .started 0) := by
  have hc : Leads own true s (s.modify id fun q => { q with validators := [] }) := .checked s id
  simp only [tryOut, Act.bind_apply, Act.change] at h
  have ha := failures_remarks id 0 q.validators (s.modify id fun q => { q with validators := [] })
  rcases hf : failures id 0 q.validators (s.modify id fun q => { q with validators := [] })
    with ⟨e | failed, t⟩
  · rw [hf] at h ha
    obtain ⟨rfl, rfl⟩ := Prod.mk.inj h
    exact .inl ⟨by simp, hc.then (.remark _ ha)⟩
  · rw [hf] at h ha
    dsimp only at h
    split at h
    · refine .inr ⟨t, .started q.name q.stepCount, hc.then (.aside ha), ha.registry, ?_, ?_⟩
      · rw [ha.sequence]
        exact s.field_modify (f := fun q => { q with validators := [] }) (·.running)
          (fun _ => rfl) id id
      · obtain ⟨rfl, rfl⟩ := Prod.mk.inj h
        exact ⟨rfl, rfl⟩
    · obtain ⟨rfl, rfl⟩ := Prod.mk.inj h
      exact .inl ⟨by simp, hc.then (.aside ha)⟩

theorem launch_cases (own : Site → Prop) {id : Nat} {s u : Stage}
    {r : Except Halt (Except Refusal Bool)}
    (h : launch id s = (r, u)) :
    (r ≠ .ok (.ok true) ∧ Leads own r.isOk s u) ∨
      ∃ t n, Leads own true s t ∧ t.registry = s.registry ∧ (t.sequence id).running = false ∧
        r = .ok (.ok true) ∧
        u = (((t.modify id Sequence.begun).note (.notice n)).note (.began id)).note
          (.moved id .started 0) := by
  simp only [launch, Act.bind_apply, Act.read] at h
  split at h
  · obtain ⟨rfl, rfl⟩ := Prod.mk.inj h
    exact .inl ⟨by simp, .aside (.note s rfl)⟩
  · next idle =>
    have ha := admitted_remarks id (s.sequence id).guard s
    rw [Act.bind_apply] at h
    rcases hg : admitted id (s.sequence id).guard s with ⟨e | ok, t⟩
    · rw [hg] at h ha
      obtain ⟨rfl, rfl⟩ := Prod.mk.inj h
      exact .inl ⟨by simp, .remark _ ha⟩
    · rw [hg] at h ha
      dsimp only at h
      split at h
      · obtain ⟨rfl, rfl⟩ := Prod.mk.inj h
        exact .inl ⟨by simp, (Leads.aside ha).then (.aside (.note t rfl))⟩
      · rcases tryOut_cases own h with ⟨hr, hl⟩ | ⟨t', n, hl, hreg, hrun, hr, hu⟩
        · exact .inl ⟨hr, (Leads.aside ha).then hl⟩
        · refine .inr ⟨t', n, (Leads.aside ha).then hl, hreg.trans ha.registry, ?_, hr, hu⟩
          rw [hrun, ha.sequence]
          simpa using idle

theorem start_follows (hrun : run.Follows) (name : String) : (start run name).Follows own := by
  refine onNamed_follows fun s id hid => ?_
  rw [Act.bind_apply]
  rcases hl : launch id s with ⟨r, u⟩
  rcases launch_cases own hl with ⟨hr, hq⟩ | ⟨t, n, hq, hreg, hidle, rfl, rfl⟩
  · rcases r with e | (e | ok)
    · exact hq
    · exact hq
    · cases ok with
      | false => exact hq
      | true => exact absurd rfl hr
  · have hfind : t.find? name = some id := by rw [← hid]; simp only [Stage.find?, hreg]
    have hbegin : Leads own true s (t.starting id n) := hq.then (.started n hfind hidle)
    exact Act.Follows.bind_from (x := notify run id .started)
      (f := fun _ => pure (.ok true : Except Refusal Bool))
      (hbegin.then (notify_leads hrun id .started _)) fun _ => .pure _

theorem breakOff_idle (run : Runner) {id : Nat} {s : Stage}
    (h : (s.sequence id).running = false) : breakOff run id s = (.ok false, s) := by
  simp only [breakOff, Act.bind_apply, Act.read]
  rw [if_neg (by simp [h])]
  rfl

/-- The run ends before the callback is told of it. -/
theorem breakOff_leads (own : Site → Prop) (hrun : run.Follows) {id : Nat} {s : Stage}
    (h : (s.sequence id).running = true) :
    Leads own (breakOff run id s).1.isOk
      (s.ending id .stopped (.stopped (s.sequence id).name (s.sequence id).current))
      (breakOff run id s).2 := by
  simp only [breakOff, Act.bind_apply, Act.read]
  rw [if_pos h]
  exact Act.Follows.bind_from (x := notify run id .stopped) (f := fun _ => pure true)
    (notify_leads hrun id .stopped _) fun _ => .pure true

theorem finish_leads (own : Site → Prop) (hrun : run.Follows) (id : Nat) (s : Stage) :
    Leads own (finish run id s).1.isOk
      (s.ending id .completed (.completed ((s.modify id Sequence.ended).sequence id).name))
      (finish run id s).2 :=
  notify_leads hrun id .completed _

theorem stop_follows (hrun : run.Follows) (name : String) : (stop run name).Follows own := by
  refine onNamed_follows fun s id hid => ?_
  rw [Act.bind_apply]
  by_cases h : (s.sequence id).running = true
  · have hb := breakOff_leads own hrun h
    rcases ht : breakOff run id s with ⟨e | stopped, t⟩ <;> rw [ht] at hb
    · exact Leads.stopped _ hid h hb
    · exact Leads.stopped _ hid h hb
  · have h : (s.sequence id).running = false := by simpa using h
    rw [breakOff_idle run h]
    exact Leads.stoppedIdle hid h

theorem remove_follows (hrun : run.Follows) (name : String) : (remove run name).Follows own := by
  intro s
  cases hid : s.find? name with
  | none =>
    simp only [remove, Act.bind_apply, Act.read, hid]
    exact .refl s
  | some id =>
    simp only [remove, Act.bind_apply, Act.read, hid, Act.change]
    by_cases h : (s.sequence id).running = true
    · have hb := breakOff_leads own hrun (s := s.unregister name) h
      rcases ht : breakOff run id (s.unregister name) with ⟨e | stopped, t⟩ <;> rw [ht] at hb
      · exact Leads.removed _ hid h hb
      · exact (Leads.removed _ hid h hb).then (.aside (.note _ rfl))
    · have h : (s.sequence id).running = false := by simpa using h
      rw [breakOff_idle run (s := s.unregister name) h]
      exact (Leads.removedIdle hid h).then (.aside (.note _ rfl))

theorem setPaused_follows (name : String) (f : Bool → Bool) :
    (setPaused name f).Follows own :=
  onNamed_follows fun s id _ => .paused s id f

theorem reset_follows (name : String) : (reset name).Follows own :=
  onNamed_follows fun _ _ hid => .reset hid

theorem capture_follows (name : String) : (capture name).Follows own :=
  onNamed_follows fun s _ _ => .refl s

theorem restore_follows (b : Bookmark) : (restore b).Follows own :=
  onNamed_follows fun _ _ hid => (Leads.restored b.index hid).then (.aside (.note _ rfl))

theorem register_follows (o : Outline Command) : (register o).Follows own := by
  intro s
  simp only [register, enroll, Act.bind_apply, Act.read]
  split
  · exact .refl s
  · next h =>
    have hname : s.find? o.name = none := by simpa [Sequence.build] using h
    exact (Leads.aside (.note s rfl)).then (.registered _ o hname)

end Conductor

end Sequencer
