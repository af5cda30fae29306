import Sequencer.Proofs.Course.Session
import Sequencer.Proofs.InStep.Aloof

/-!
# Starting and stopping other sequences

A sequence that is found under another name can be started and stopped by steps that are aloof from
their own, as long as its callbacks are aloof too.
-/

set_option autoImplicit false

namespace Sequencer

section

variable {id : Nat} {D : Disguise id}

theorem Stage.masked_modify (s : Stage) {i : Nat} (hi : i ≠ id) (f : Sequence → Sequence)
    (j : List Entry) : (s.modify i f).masked D j = (s.masked D j).modify i f := by
  have hcomm : (s.modify i f).modify id D.look = (s.modify id D.look).modify i f :=
    congrArg (fun l => { s with sequences := l }) (List.modify_modify_ne f D.look _ hi)
  exact congrArg (fun u : Stage => { u with journal := j }) hcomm

theorem Stage.masked_enlist (s : Stage) (i : Nat) (j : List Entry) :
    (s.enlist i).masked D j = (s.masked D j).enlist i := by
  have hactive : (s.masked D j).active = s.active := rfl
  unfold Stage.enlist
  rw [hactive]
  split <;> rfl

theorem Stage.sequence_masked (s : Stage) {i : Nat} (hi : i ≠ id) (j : List Entry) :
    (s.masked D j).sequence i = s.sequence i := s.sequence_modify_ne D.look hi

end

structure Milieu.Neighbour {id : Nat} {name : String} (M : Milieu id name) (target : String)
    (i : Nat) (calls : Hook → List Command) : Prop where
  other : i ≠ id
  found : ∀ s, M.world s → s.find? target = some i
  calls : ∀ s, M.world s → ∀ hook, ((s.sequence i).hook hook).getD [] = calls hook
  changed : ∀ s f, M.world s → (∀ q : Sequence, (f q).hook = q.hook) → M.world (s.modify i f)
  enlisted : ∀ s, M.world s → M.world (s.enlist i)
  delisted : ∀ s, M.world s → M.world (s.delist i)

def Milieu.beside (id : Nat) (name target : String) {i : Nat} (hi : i ≠ id)
    (calls : Hook → List Command) : Milieu id name where
  world s := (id < s.sequences.length ∧ (s.sequence id).name = name) ∧
    (i < s.sequences.length ∧ s.find? target = some i) ∧
    ∀ hook, ((s.sequence i).hook hook).getD [] = calls hook
  placed _ hs := hs.1.1
  named _ hs := hs.1.2
  elsewhere s t := by
    rintro ⟨hown, ⟨hlength, hfound⟩, hcalls⟩ he
    refine ⟨(Milieu.anywhere id name).elsewhere s t hown he, ⟨?_, ?_⟩, ?_⟩
    · rwa [he.length]
    · rwa [Stage.find?, he.registry]
    · rwa [he.others i hi]

theorem Milieu.beside_neighbour {id : Nat} {name target : String} {i : Nat} (hi : i ≠ id)
    (calls : Hook → List Command) :
    (Milieu.beside id name target hi calls).Neighbour target i calls where
  other := hi
  found _ hs := hs.2.1.2
  calls _ hs := hs.2.2
  changed s f := by
    rintro ⟨⟨hplaced, hnamed⟩, ⟨hlength, hfound⟩, hcalls⟩ hf
    refine ⟨⟨?_, ?_⟩, ⟨?_, hfound⟩, ?_⟩
    · rwa [Stage.length_modify]
    · rwa [s.sequence_modify_ne f hi.symm]
    · rwa [Stage.length_modify]
    · rwa [s.sequence_modify_self f hlength, hf]
  enlisted s hs := by
    unfold Stage.enlist
    split
    · exact hs
    · exact hs
  delisted _ hs := hs

section

variable {id : Nat} {name target : String} {M : Milieu id name} {i : Nat}
  {calls : Hook → List Command} {run : Runner} {σ : Site} {q v : Sequence} {hq : v.Resembles q}
  {j₀ j : List Entry}

theorem Act.Alike.rehomed_note {e : Entry} (he : e.rehome id name σ = e) :
    Act.Alike (M.rehomed σ hq j₀ j) (.note e) (.note e) := .note fun _ _ h => h.note he

namespace Milieu.Neighbour

variable (h : M.Neighbour target i calls)

include h

theorem read : Act.Alike (M.rehomed σ hq j₀ j) (.read (·.sequence i)) (.read (·.sequence i)) := by
  refine .read ?_
  rintro s _ ⟨-, -, l, -, rfl⟩
  exact s.sequence_masked h.other _

theorem modify {f : Sequence → Sequence} (hf : ∀ q : Sequence, (f q).hook = q.hook) :
    Act.Alike (M.rehomed σ hq j₀ j) (.change (·.modify i f)) (.change (·.modify i f)) := by
  rintro s _ ⟨hs, hsame, l, hl, rfl⟩
  exact ⟨rfl, h.changed s f hs hf, (s.sequence_modify_ne f h.other.symm).trans hsame, l, hl,
    (s.masked_modify h.other f _).symm⟩

theorem enlist : Act.Alike (M.rehomed σ hq j₀ j) (.change (·.enlist i)) (.change (·.enlist i)) := by
  rintro s _ ⟨hs, hsame, l, hl, rfl⟩
  exact ⟨rfl, h.enlisted s hs, (s.sequence_enlist i id).trans hsame, l,
    (s.journal_enlist i).trans hl, (s.masked_enlist i _).symm⟩

theorem delist : Act.Alike (M.rehomed σ hq j₀ j) (.change (·.delist i)) (.change (·.delist i)) := by
  rintro s _ ⟨hs, hsame, l, hl, rfl⟩
  exact ⟨rfl, h.delisted s hs, hsame, l, hl, rfl⟩

/-- Under its name it is found, in whatever disguise the own sequence is. -/
theorem onNamed {α : Type} {absent : α} {act : Nat → Act α}
    (hact : Act.Alike (M.rehomed σ hq j₀ j) (act i) (act i)) :
    Act.Alike (M.rehomed σ hq j₀ j) (Conductor.onNamed target absent act)
      (Conductor.onNamed target absent act) := by
  rintro s t hst
  have hs := h.found s hst.1
  have ht : t.find? target = some i := by
    obtain ⟨-, -, l, -, rfl⟩ := hst
    exact hs
  rw [Conductor.onNamed_some hs, Conductor.onNamed_some ht]
  exact hact s t hst

variable (hcalls : ∀ hook, ∀ c ∈ calls hook, (run c).Aloof M)

include hcalls

theorem notify (hook : Hook) : Act.Alike (M.rehomed σ hq j₀ j) (Conductor.notify run i hook)
    (Conductor.notify run i hook) := by
  have hperform : Act.Alike (M.rehomed σ hq j₀ j) (performAll run (calls hook))
      (performAll run (calls hook)) := (performAll_aloof (hcalls hook) σ v).alike hq j₀ j
  rintro s t hst
  have ht : t.sequence i = s.sequence i := by
    obtain ⟨-, -, l, -, rfl⟩ := hst
    exact s.sequence_masked h.other _
  have hnoted : (M.rehomed σ hq j₀ j).related (s.notify i hook) (t.notify i hook) := by
    rw [Stage.notify, Stage.notify, ht]
    exact hst.note rfl
  rw [Conductor.notify_apply, Conductor.notify_apply, ht, h.calls s hst.1]
  exact hperform _ _ hnoted

end Milieu.Neighbour

/-- A condition of another sequence is asked alike. -/
theorem Act.Alike.rehomed_ask {asker : Asker} (hasker : ∀ τ, asker ≠ .step τ) (owner : String)
    (polls : Nat) (c : Condition) :
    Act.Alike (M.rehomed σ hq j₀ j) (ask asker owner polls c) (ask asker owner polls c) := by
  refine .bind (.read fun _ _ hst => c.test.eval_alike _ hst owner polls) fun r => ?_
  cases r with
  | ok answer =>
    refine .bind (.rehomed_note ?_) fun _ => .pure answer
    cases asker with
    | step τ => exact absurd rfl (hasker τ)
    | _ => rfl
  | error e => exact .halt e

theorem Act.Alike.rehomed_failures (i : Nat) : (index : Nat) → (l : List Validator) →
    Act.Alike (M.rehomed σ hq j₀ j) (Conductor.failures i index l) (Conductor.failures i index l)
  | _, [] => .pure _
  | index, v :: rest => .bind (.rehomed_ask (by simp) _ _ _) fun _ =>
    .bind (Act.Alike.rehomed_failures i (index + 1) rest) fun _ => .pure _

namespace Milieu.Neighbour

variable (h : M.Neighbour target i calls)

include h

theorem tryOut (q' : Sequence) : Act.Alike (M.rehomed σ hq j₀ j) (Conductor.tryOut i q')
    (Conductor.tryOut i q') := by
  refine .bind (h.modify fun _ => rfl) fun _ => .bind (.rehomed_failures i 0 _) fun _ =>
    .ite ?_ (.pure _)
  exact .bind (h.modify fun _ => rfl) fun _ => .bind (.say rfl) fun _ =>
    .bind (.rehomed_note rfl) fun _ => .bind (.rehomed_note rfl) fun _ => .pure _

theorem launch : Act.Alike (M.rehomed σ hq j₀ j) (Conductor.launch i) (Conductor.launch i) := by
  refine .bind h.read fun q' => .ite (.bind (.say rfl) fun _ => .pure _) ?_
  have hadmitted : Act.Alike (M.rehomed σ hq j₀ j) (Conductor.admitted i q'.guard)
      (Conductor.admitted i q'.guard) := by
    cases q'.guard with
    | none => exact .pure true
    | some guard => exact .rehomed_ask (by simp) _ _ _
  exact .bind hadmitted fun _ => .ite (.bind (.say rfl) fun _ => .pure _) (h.tryOut q')

variable (hcalls : ∀ hook, ∀ c ∈ calls hook, (run c).Aloof M)

include hcalls

/-- Starting another sequence. -/
theorem start_aloof : (Conductor.start run target).Aloof M := by
  intro σ v
  refine .of_alike fun _ hq j₀ j => h.onNamed (.bind h.launch fun r => ?_)
  match r with
  | .ok true =>
    exact .bind h.enlist fun _ => .bind (h.notify hcalls .started) fun _ => .pure _
  | .ok false => exact .pure _
  | .error why => exact .pure _

theorem breakOff : Act.Alike (M.rehomed σ hq j₀ j) (Conductor.breakOff run i)
    (Conductor.breakOff run i) :=
  .bind h.read fun _ => .ite (.bind (h.modify fun _ => rfl) fun _ => .bind (.say rfl) fun _ =>
    .bind (h.notify hcalls .stopped) fun _ => .pure _) (.pure _)

/-- Stopping another sequence. -/
theorem stop_aloof : (Conductor.stop run target).Aloof M := by
  intro σ v
  refine .of_alike fun _ hq j₀ j => h.onNamed (.bind (h.breakOff hcalls) fun stopped => ?_)
  exact .bind h.read fun _ => .bind (.rehomed_note rfl) fun _ => .bind h.delist fun _ => .pure _

theorem startAnother_aloof : (startAnother run name target).Aloof M := by
  intro σ v
  refine .of_alike fun _ hq j₀ j => .bind ((h.start_aloof hcalls σ v).alike hq j₀ j) fun r => ?_
  cases r with
  | ok started => exact .pure _
  | error why => exact .bind (.say rfl) fun _ => .pure _

end Milieu.Neighbour

end

end Sequencer
