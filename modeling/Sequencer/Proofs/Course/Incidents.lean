import Sequencer.Proofs.Course

/-!
# Courses, incident by incident

Most of what holds along a course does not depend on the operation that a change belongs to. Such
a law is proved of single incidents and of drives, and goes through courses by induction.
-/

set_option autoImplicit false

namespace Sequencer

open Site (Nowhere Within)

theorem Site.of_rooted {own : Site → Prop} {σ : Site} {id : Nat} (h : own σ ∨ σ.root = none)
    (hr : σ.root = some id) : own σ := by
  rcases h with h | hnone
  · exact h
  · rw [hnone] at hr
    exact absurd hr (by simp)

def Stage.Takes (s : Stage) (id : Nat) : Turn → Prop
  | .paused => (s.sequence id).paused = true
  | .idle => (s.sequence id).paused = false ∧ (s.sequence id).running = false
  | .completed => s.Due id ∧ (s.sequence id).stepCount ≤ (s.sequence id).current
  | .busy => s.Due id ∧ (s.sequence id).current < (s.sequence id).stepCount ∧
    (s.sequence id).ticking = true
  | .missing => False
  | .driven => False

inductive Incident (own : Site → Prop) : Stage → Stage → Prop
  | aside {s t : Stage} : Aside s t → Incident own s t
  | called (s : Stage) {σ : Site} (c : Call) : own σ ∨ σ.root = none →
      Incident own s (s.note (.called σ c))
  | returned (s : Stage) {σ : Site} (r : Option Status) : own σ ∨ σ.root = none →
      Incident own s (s.note (.returned σ r))
  | held (s : Stage) (h : Table String Held)
      (built : ∀ slot q, h.get? slot = some (.sequence q) →
        s.held.get? slot = some (.sequence q) ∨ ∃ resolve o, q = Sequence.build resolve o) :
      Incident own s { s with held := h }
  | registered {s : Stage} (resolve : String → EntityId) (o : Outline Command) :
      s.find? o.name = none → Incident own s (s.enroll (Sequence.build resolve o))
  | registeredHeld {s : Stage} {slot : String} {q : Sequence} :
      s.held.get? slot = some (.sequence q) → s.find? q.name = none →
      Incident own s ({ s with held := s.held.erase slot }.enroll q)
  | checked (s : Stage) (id : Nat) :
      Incident own s (s.modify id fun q => { q with validators := [] })
  | paused (s : Stage) (id : Nat) (f : Bool → Bool) :
      Incident own s (s.modify id fun q => { q with paused := f q.paused })
  | started {s : Stage} {name : String} {id : Nat} (n : Notice) : s.find? name = some id →
      (s.sequence id).running = false → Incident own s (s.starting id n)
  | reset {s : Stage} {name : String} {id : Nat} : s.find? name = some id →
      Incident own s (s.rewinding id)
  | restored {s : Stage} {name : String} {id : Nat} (index : Nat) : s.find? name = some id →
      Incident own s (s.restoring id index)
  | ended {s : Stage} {id : Nat} {hook : Hook} (n : Notice) : hook ≠ .started →
      (s.sequence id).running = true → Incident own s (s.ending id hook n)
  | dropped (s : Stage) (id : Nat) : Incident own s (s.dropping id)
  | unregistered (s : Stage) (name : String) : Incident own s (s.unregister name)
  | delisted (s : Stage) (id : Nat) : Incident own s (s.delist id)
  | swept (s : Stage) (id : Nat) : Incident own s (s.sweep id)
  | turned {s : Stage} {id : Nat} {τ : Turn} : s.Takes id τ → Incident own s (s.note (.turn id τ))

structure Drive (run : Runner) (dt : Float32) (s : Stage) (id : Nat) (part : Part)
    (r : Except Halt Status) (p : part.step.Progress) (t : Stage) : Prop where
  due : s.Due id
  free : (s.sequence id).ticking = false
  cursor : (s.sequence id).parts[(s.sequence id).current]? = some part
  callbacks : ∀ c u, Leads Nowhere (run c u).1.isOk u (run c u).2
  play : Conductor.playPart run dt id (s.sequence id) part (part.progress, s.lending id) = (r, p, t)
  leads : Leads (Within (.top id (s.sequence id).current)) r.isOk (s.lending id) t

inductive Course : (Site → Prop) → Bool → Stage → Stage → Prop
  | single {own : Site → Prop} {s t : Stage} : Incident own s t → Course own true s t
  | halt {own : Site → Prop} {calm : Bool} {s t : Stage} :
      Course own calm s t → Course own false s t
  | trans {own : Site → Prop} {calm calm' : Bool} {s t u : Stage} :
      Course own calm s t → Course own calm' t u → Course own (calm && calm') s u
  | widen {own own' : Site → Prop} {calm : Bool} {s t : Stage} :
      (∀ σ, own σ → own' σ ∨ σ.root = none) → Course own calm s t → Course own' calm s t
  | driven {own : Site → Prop} {run : Runner} {dt : Float32} {s t : Stage} {id : Nat} {part : Part}
      {r : Except Halt Status} {p : part.step.Progress} : Drive run dt s id part r p t →
      Course (Within (.top id (s.sequence id).current)) r.isOk (s.lending id) t →
      Course own r.isOk s (t.afterPlay id (s.sequence id) ⟨part.step, p⟩ r)

namespace Course

variable {own : Site → Prop} {calm : Bool} {s t u : Stage}

/-- An incident before a course. -/
theorem after (h : Course own calm t u) (he : Incident own s t) : Course own calm s u := by
  have hst : Course own (true && calm) s u := (single he).trans h
  rwa [Bool.true_and] at hst

/-- An incident after a course, if it comes to its end. -/
theorem before (h : Course own calm s t) (he : Incident own t u) :
    Course own calm s (if calm then u else t) := by
  cases calm with
  | false => exact h
  | true => exact h.trans (single he)

end Course

theorem Leads.course {own : Site → Prop} {calm : Bool} {s t : Stage} (h : Leads own calm s t) :
    Course own calm s t := by
  induction h with
  | aside h => exact .single (.aside h)
  | halt _ ih => exact ih.halt
  | trans _ _ ih ih' => exact ih.trans ih'
  | widen hw _ ih => exact ih.widen hw
  | called s c hσ => exact .single (.called s c hσ)
  | returned s r hσ => exact .single (.returned s r hσ)
  | held s h built => exact .single (.held s h built)
  | registered resolve o hn => exact .single (.registered resolve o hn)
  | registeredHeld hq hn => exact .single (.registeredHeld hq hn)
  | checked s id => exact .single (.checked s id)
  | paused s id f => exact .single (.paused s id f)
  | started n hn hr => exact .single (.started n hn hr)
  | reset hn => exact .single (.reset hn)
  | restored index hn => exact .single (.restored index hn)
  | stoppedIdle _ _ => exact .single (.dropped _ _)
  | @stopped own calm s t name id n hn hr _ ih =>
    have hst := ih.after (.ended n (by simp) hr)
    exact hst.before (.dropped t id)
  | @removedIdle own s name id hn hr =>
    have hu : Course own true s (s.unregister name) := .single (.unregistered s name)
    exact hu.before (.delisted _ id)
  | @removed own calm s t name id n hn hr _ ih =>
    have hst := (ih.after (.ended n (by simp) hr)).after (.unregistered s name)
    exact hst.before (.delisted t id)
  | passed hp => exact .single (.turned hp)
  | @idle own s id hp hr =>
    have hu : Course own true s (s.note (.turn id .idle)) := .single (.turned ⟨hp, hr⟩)
    exact hu.before (.swept _ id)
  | @completed own calm s t id n hd hc _ ih =>
    have hst := (ih.after (.ended n (by simp) hd.running)).after (.turned ⟨hd, hc⟩)
    exact hst.before (.swept t id)
  | @busy own s id hd hc hb =>
    have hu : Course own true s (s.note (.turn id .busy)) := .single (.turned ⟨hd, hc, hb⟩)
    exact hu.before (.swept _ id)
  | @driven own s t id part run dt r p hd hb hp hrun hpl h _ ih =>
    have hst : Course own r.isOk s (t.afterPlay id (s.sequence id) ⟨part.step, p⟩ r) :=
      .driven ⟨hd, hb, hp, hrun, hpl, h⟩ ih
    exact hst.before (.swept _ id)

end Sequencer
