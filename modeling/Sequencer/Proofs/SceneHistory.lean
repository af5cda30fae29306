import Mathlib.Tactic.ByContra
import Sequencer.Scene

/-!
# What a scene recalls

A scene answers requests one after the other, and an exchange is a request with the answer it
got. The history of a scene that began empty, newest exchange first, says what each of its
queries answers: which systems and entities there are, what each system was told, where each
entity stands and which of its components are on.

Each query has a law for one request. The law names the exchanges that give the query its
value and those that take it away, and the history follows from it by induction.
-/

set_option autoImplicit false

namespace Sequencer

namespace Table

variable {κ α : Type} [DecidableEq κ] (t : Table κ α) (k j : κ)

theorem get?_put (v : α) : (t.put k v).get? j = if j = k then some v else t.get? j := by
  split
  next h => rw [h, get?_put_self]
  next h => exact get?_put_ne t v h

theorem get?_erase : (t.erase k).get? j = if j = k then none else t.get? j := by
  split
  next h => rw [h, get?_erase_self]
  next h => exact get?_erase_ne t h

theorem get?_empty : ({} : Table κ α).get? k = none := rfl

end Table

namespace Scene

open Table (get?_put get?_erase get?_empty)

inductive Request where
  | addSystem (name : String)
  | invoke (name : String) (command : Instruction)
  | spawn (label : String) (pose : Pose)
  | despawn (id : EntityId)
  | addComponent (id : EntityId) (component : String) (enabled : Bool)
  | setComponentEnabled (id : EntityId) (component : String) (enabled : Bool)
  | setPose (id : EntityId) (pose : Pose)

inductive Answer where
  | done
  | spawned (id : EntityId)
  | accepted
  | refused

def Answer.of : Bool → Answer
  | true => .accepted
  | false => .refused

def perform (s : Scene) : Request → Answer × Scene
  | .addSystem name => (.done, s.addSystem name)
  | .invoke name command => (s.invoke name command).map Answer.of id
  | .spawn label pose => (s.spawn label pose).map Answer.spawned id
  | .despawn i => (s.despawn i).map Answer.of id
  | .addComponent i component enabled => (s.addComponent i component enabled).map Answer.of id
  | .setComponentEnabled i component enabled =>
    (s.setComponentEnabled i component enabled).map Answer.of id
  | .setPose i pose => (s.setPose i pose).map Answer.of id

structure Exchange where
  request : Request
  answer : Answer

def exchange (s : Scene) (q : Request) : Exchange := ⟨q, (s.perform q).1⟩

namespace Exchange

def Adds (name : String) (e : Exchange) : Prop := e = ⟨.addSystem name, .done⟩

def Spawns (id : EntityId) (e : Exchange) : Prop :=
  ∃ label pose, e = ⟨.spawn label pose, .spawned id⟩

def Despawns (id : EntityId) (e : Exchange) : Prop := e = ⟨.despawn id, .accepted⟩

def Places (id : EntityId) (pose : Pose) (e : Exchange) : Prop :=
  (∃ label, e = ⟨.spawn label pose, .spawned id⟩) ∨ e = ⟨.setPose id pose, .accepted⟩

def Equips (id : EntityId) (component : String) (e : Exchange) : Prop :=
  ∃ enabled, e = ⟨.addComponent id component enabled, .accepted⟩

def Switches (id : EntityId) (component : String) (enabled : Bool) (e : Exchange) : Prop :=
  e = ⟨.addComponent id component enabled, .accepted⟩ ∨
    e = ⟨.setComponentEnabled id component enabled, .accepted⟩

def delivered (name : String) : Exchange → Option Instruction
  | ⟨.invoke n command, .accepted⟩ => if n = name then some command else none
  | _ => none

end Exchange

abbrev History := List Exchange

def History.Since (h : History) (begins ends : Exchange → Prop) : Prop :=
  ∃ later e earlier, h = later ++ e :: earlier ∧ begins e ∧ ∀ f ∈ later, ¬ ends f

theorem History.not_since_nil (begins ends : Exchange → Prop) :
    ¬ History.Since [] begins ends := by
  rintro ⟨later, e, earlier, h, -⟩
  simp at h

theorem History.since_cons (e : Exchange) (h : History) (begins ends : Exchange → Prop) :
    History.Since (e :: h) begins ends ↔ begins e ∨ (¬ ends e ∧ h.Since begins ends) := by
  constructor
  · rintro ⟨later, e', earlier, hsplit, hbegins, hlater⟩
    cases later with
    | nil =>
      obtain ⟨rfl, rfl⟩ := List.cons.inj hsplit
      exact .inl hbegins
    | cons f later =>
      obtain ⟨rfl, rfl⟩ := List.cons.inj hsplit
      exact .inr ⟨hlater e (by simp), later, e', earlier, rfl, hbegins,
        fun f hf => hlater f (by simp [hf])⟩
  · rintro (hbegins | ⟨hends, later, e', earlier, rfl, hbegins, hlater⟩)
    · exact ⟨[], e, h, rfl, hbegins, by simp⟩
    · exact ⟨e :: later, e', earlier, rfl, hbegins, by simpa using ⟨hends, hlater⟩⟩

theorem addSystem_hasSystem (s : Scene) (n name : String) :
    (s.addSystem n).hasSystem name = (decide (name = n) || s.hasSystem name) := by
  unfold addSystem
  by_cases hn : s.hasSystem n
  · obtain rfl | h := eq_or_ne name n
    · simp [hn]
    · simp [hn, h]
  · rw [if_neg hn]
    by_cases h : name = n <;> simp [hasSystem, Table.contains, get?_put, h]

theorem addSystem_received (s : Scene) (n name : String) :
    (s.addSystem n).received name = s.received name := by
  by_cases hn : s.hasSystem n = true
  · simp [addSystem, hn]
  · have hnone : s.systems.get? n = none := by simpa [hasSystem, Table.contains] using hn
    by_cases h : name = n <;> simp [addSystem, hn, received, get?_put, h, hnone]

theorem addSystem_entities (s : Scene) (name : String) :
    (s.addSystem name).entities = s.entities := by
  unfold addSystem
  split <;> rfl

theorem addSystem_spawned (s : Scene) (name : String) : (s.addSystem name).spawned = s.spawned := by
  unfold addSystem
  split <;> rfl

def Numbered (s : Scene) : Prop := ∀ id, s.hasEntity id → id.serial ≤ s.spawned

theorem Numbered.unused {s : Scene} (h : s.Numbered) (label : String) :
    s.entities.get? ⟨label, s.spawned + 1⟩ = none := by
  by_contra hsome
  have : s.spawned + 1 ≤ s.spawned := h ⟨label, s.spawned + 1⟩ (Option.isSome_iff_ne_none.mpr hsome)
  omega

/-- What one exchange makes of a scene: nothing when it is refused, and one write otherwise. -/
inductive Turn (s : Scene) : Exchange → Scene → Prop
  | refused (q : Request) : Turn s ⟨q, .refused⟩ s
  | addSystem (name : String) : Turn s ⟨.addSystem name, .done⟩ (s.addSystem name)
  | invoke {name : String} {log : List Instruction} (command : Instruction)
      (hlog : s.systems.get? name = some log) :
      Turn s ⟨.invoke name command, .accepted⟩
        { s with systems := s.systems.put name (log ++ [command]) }
  | spawn (label : String) (pose : Pose) :
      Turn s ⟨.spawn label pose, .spawned ⟨label, s.spawned + 1⟩⟩ (s.spawn label pose).2
  | despawn {id : EntityId} (hid : s.hasEntity id) :
      Turn s ⟨.despawn id, .accepted⟩ { s with entities := s.entities.erase id }
  | addComponent {id : EntityId} {e : Entity} (component : String) (enabled : Bool)
      (he : s.entities.get? id = some e) :
      Turn s ⟨.addComponent id component enabled, .accepted⟩ { s with
        entities := s.entities.put id { e with components := e.components.put component enabled } }
  | setComponentEnabled {id : EntityId} {e : Entity} {component : String} (enabled : Bool)
      (he : s.entities.get? id = some e) (hcomponent : e.components.contains component) :
      Turn s ⟨.setComponentEnabled id component enabled, .accepted⟩ { s with
        entities := s.entities.put id { e with components := e.components.put component enabled } }
  | setPose {id : EntityId} {e : Entity} (pose : Pose) (he : s.entities.get? id = some e) :
      Turn s ⟨.setPose id pose, .accepted⟩ { s with
        entities := s.entities.put id { e with pose } }

theorem perform_turn (s : Scene) (q : Request) : s.Turn (s.exchange q) (s.perform q).2 := by
  cases q with
  | addSystem name => exact .addSystem name
  | invoke name command =>
    simp only [exchange, perform, invoke]
    split
    next log hlog => exact .invoke command hlog
    next => exact .refused _
  | spawn label pose => exact .spawn label pose
  | despawn id =>
    simp only [exchange, perform, despawn]
    split
    next hid => exact .despawn hid
    next => exact .refused _
  | addComponent id component enabled =>
    simp only [exchange, perform, addComponent]
    split
    next e he => exact .addComponent component enabled he
    next => exact .refused _
  | setComponentEnabled id component enabled =>
    simp only [exchange, perform, setComponentEnabled]
    split
    next e he =>
      split
      next hcomponent => exact .setComponentEnabled enabled he hcomponent
      next => exact .refused _
    next => exact .refused _
  | setPose id pose =>
    simp only [exchange, perform, setPose]
    split
    next e he => exact .setPose pose he
    next => exact .refused _

namespace Turn

variable {s t : Scene} {e : Exchange} (h : s.Turn e t)

include h

theorem hasSystem (name : String) : t.hasSystem name ↔ e.Adds name ∨ s.hasSystem name := by
  cases h with
  | addSystem n =>
    obtain rfl | hn := eq_or_ne name n
    · simp [Exchange.Adds, addSystem_hasSystem]
    · simp [Exchange.Adds, addSystem_hasSystem, hn, hn.symm]
  | @invoke n log command hlog =>
    obtain rfl | hn := eq_or_ne name n
    · simp [Exchange.Adds, Scene.hasSystem, Table.contains, get?_put, hlog]
    · simp [Exchange.Adds, Scene.hasSystem, Table.contains, get?_put, hn]
  | _ => simp [Exchange.Adds, Scene.hasSystem, Scene.spawn]

theorem received (name : String) :
    t.received name = s.received name ++ (e.delivered name).toList := by
  cases h with
  | addSystem n => simp [Exchange.delivered, addSystem_received]
  | @invoke n log command hlog =>
    obtain rfl | hn := eq_or_ne name n
    · simp [Exchange.delivered, Scene.received, get?_put, hlog]
    · simp [Exchange.delivered, Scene.received, get?_put, hn, hn.symm]
  | _ => simp [Exchange.delivered, Scene.received, Scene.spawn]

theorem hasEntity (id : EntityId) :
    t.hasEntity id ↔ e.Spawns id ∨ (¬ e.Despawns id ∧ s.hasEntity id) := by
  cases h with
  | addSystem name => simp [Exchange.Spawns, Exchange.Despawns, Scene.hasEntity, addSystem_entities]
  | spawn label pose =>
    obtain rfl | hid := eq_or_ne id ⟨label, s.spawned + 1⟩
    · simp [Exchange.Spawns, Scene.hasEntity, Scene.spawn, Table.contains, get?_put]
    · simp [Exchange.Spawns, Exchange.Despawns, Scene.hasEntity, Scene.spawn, Table.contains,
        get?_put, hid, hid.symm]
  | @despawn i _ =>
    obtain rfl | hid := eq_or_ne id i
    · simp [Exchange.Spawns, Exchange.Despawns, Scene.hasEntity, Table.contains, get?_erase]
    · simp [Exchange.Spawns, Exchange.Despawns, Scene.hasEntity, Table.contains, get?_erase, hid,
        hid.symm]
  | @addComponent i _ _ _ he | @setComponentEnabled i _ _ _ he _ | @setPose i _ _ he =>
    obtain rfl | hid := eq_or_ne id i
    · simp [Exchange.Spawns, Exchange.Despawns, Scene.hasEntity, Table.contains, get?_put, he]
    · simp [Exchange.Spawns, Exchange.Despawns, Scene.hasEntity, Table.contains, get?_put, hid]
  | _ => simp [Exchange.Spawns, Exchange.Despawns, Scene.hasEntity]

theorem pose? (id : EntityId) (pose : Pose) :
    t.pose? id = some pose ↔ e.Places id pose ∨
      (¬ (e.Despawns id ∨ ∃ other, e.Places id other) ∧ s.pose? id = some pose) := by
  cases h with
  | addSystem name => simp [Exchange.Places, Exchange.Despawns, Scene.pose?, addSystem_entities]
  | spawn label _ =>
    obtain rfl | hid := eq_or_ne id ⟨label, s.spawned + 1⟩
    · simp [Exchange.Places, Exchange.Despawns, Scene.pose?, Scene.spawn, get?_put]
    · simp [Exchange.Places, Exchange.Despawns, Scene.pose?, Scene.spawn, get?_put, hid, hid.symm]
  | @despawn i _ =>
    obtain rfl | hid := eq_or_ne id i
    · simp [Exchange.Places, Exchange.Despawns, Scene.pose?, get?_erase]
    · simp [Exchange.Places, Exchange.Despawns, Scene.pose?, get?_erase, hid, hid.symm]
  | @addComponent i _ _ _ he | @setComponentEnabled i _ _ _ he _ =>
    obtain rfl | hid := eq_or_ne id i
    · simp [Exchange.Places, Exchange.Despawns, Scene.pose?, get?_put, he]
    · simp [Exchange.Places, Exchange.Despawns, Scene.pose?, get?_put, hid]
  | @setPose i _ _ he =>
    obtain rfl | hid := eq_or_ne id i
    · simp [Exchange.Places, Exchange.Despawns, Scene.pose?, get?_put]
    · simp [Exchange.Places, Exchange.Despawns, Scene.pose?, get?_put, hid, hid.symm]
  | _ => simp [Exchange.Places, Exchange.Despawns, Scene.pose?]

variable (hnumbered : s.Numbered)

include hnumbered

theorem hasComponent (id : EntityId) (component : String) :
    t.componentEnabled? id component ≠ none ↔ e.Equips id component ∨
      (¬ e.Despawns id ∧ s.componentEnabled? id component ≠ none) := by
  cases h with
  | addSystem name =>
    simp [Exchange.Equips, Exchange.Despawns, Scene.componentEnabled?, addSystem_entities]
  | spawn label _ =>
    obtain rfl | hid := eq_or_ne id ⟨label, s.spawned + 1⟩
    · simp [Exchange.Equips, Exchange.Despawns, Scene.componentEnabled?, Scene.spawn, get?_put,
        hnumbered.unused, get?_empty]
    · simp [Exchange.Equips, Exchange.Despawns, Scene.componentEnabled?, Scene.spawn, get?_put, hid]
  | @despawn i _ =>
    obtain rfl | hid := eq_or_ne id i
    · simp [Exchange.Equips, Exchange.Despawns, Scene.componentEnabled?, get?_erase]
    · simp [Exchange.Equips, Exchange.Despawns, Scene.componentEnabled?, get?_erase, hid, hid.symm]
  | @addComponent i _ name _ he =>
    obtain rfl | hid := eq_or_ne id i
    · obtain rfl | hname := eq_or_ne component name
      · simp [Exchange.Equips, Scene.componentEnabled?, get?_put]
      · simp [Exchange.Equips, Exchange.Despawns, Scene.componentEnabled?, get?_put, he, hname,
          hname.symm]
    · simp [Exchange.Equips, Exchange.Despawns, Scene.componentEnabled?, get?_put, hid, hid.symm]
  | @setComponentEnabled i _ name _ he hcomponent =>
    have hsome := Option.isSome_iff_ne_none.mp hcomponent
    obtain rfl | hid := eq_or_ne id i
    · obtain rfl | hname := eq_or_ne component name
      · simp [Exchange.Equips, Exchange.Despawns, Scene.componentEnabled?, get?_put, he, hsome]
      · simp [Exchange.Equips, Exchange.Despawns, Scene.componentEnabled?, get?_put, he, hname]
    · simp [Exchange.Equips, Exchange.Despawns, Scene.componentEnabled?, get?_put, hid]
  | @setPose i _ _ he =>
    obtain rfl | hid := eq_or_ne id i
    · simp [Exchange.Equips, Exchange.Despawns, Scene.componentEnabled?, get?_put, he]
    · simp [Exchange.Equips, Exchange.Despawns, Scene.componentEnabled?, get?_put, hid]
  | _ => simp [Exchange.Equips, Exchange.Despawns, Scene.componentEnabled?]

theorem componentEnabled? (id : EntityId) (component : String) (enabled : Bool) :
    t.componentEnabled? id component = some enabled ↔ e.Switches id component enabled ∨
      (¬ (e.Despawns id ∨ ∃ other, e.Switches id component other) ∧
        s.componentEnabled? id component = some enabled) := by
  cases h with
  | addSystem name =>
    simp [Exchange.Switches, Exchange.Despawns, Scene.componentEnabled?, addSystem_entities]
  | spawn label _ =>
    obtain rfl | hid := eq_or_ne id ⟨label, s.spawned + 1⟩
    · simp [Exchange.Switches, Exchange.Despawns, Scene.componentEnabled?, Scene.spawn, get?_put,
        hnumbered.unused, get?_empty]
    · simp [Exchange.Switches, Exchange.Despawns, Scene.componentEnabled?, Scene.spawn, get?_put,
        hid]
  | @despawn i _ =>
    obtain rfl | hid := eq_or_ne id i
    · simp [Exchange.Switches, Exchange.Despawns, Scene.componentEnabled?, get?_erase]
    · simp [Exchange.Switches, Exchange.Despawns, Scene.componentEnabled?, get?_erase, hid,
        hid.symm]
  | @addComponent i _ name _ he | @setComponentEnabled i _ name _ he _ =>
    obtain rfl | hid := eq_or_ne id i
    · obtain rfl | hname := eq_or_ne component name
      · simp [Exchange.Switches, Exchange.Despawns, Scene.componentEnabled?, get?_put]
      · simp [Exchange.Switches, Exchange.Despawns, Scene.componentEnabled?, get?_put, he, hname,
          hname.symm]
    · simp [Exchange.Switches, Exchange.Despawns, Scene.componentEnabled?, get?_put, hid, hid.symm]
  | @setPose i _ _ he =>
    obtain rfl | hid := eq_or_ne id i
    · simp [Exchange.Switches, Exchange.Despawns, Scene.componentEnabled?, get?_put, he]
    · simp [Exchange.Switches, Exchange.Despawns, Scene.componentEnabled?, get?_put, hid]
  | _ => simp [Exchange.Switches, Exchange.Despawns, Scene.componentEnabled?]

omit hnumbered in
theorem spawned_le : s.spawned ≤ t.spawned := by
  cases h with
  | addSystem name => exact Nat.le_of_eq (addSystem_spawned s name).symm
  | spawn _ _ => exact Nat.le_succ _
  | _ => exact Nat.le_refl _

omit hnumbered in
theorem numbered (id : EntityId) (hid : e.Spawns id) : id.serial ≤ t.spawned := by
  obtain ⟨label, pose, rfl⟩ := hid
  cases h with
  | spawn _ _ => exact Nat.le_refl _

end Turn

/-- What the history of a scene says is what its queries answer. -/
structure Recalls (s : Scene) (h : History) : Prop where
  hasSystem : ∀ name, s.hasSystem name ↔ ∃ e ∈ h, e.Adds name
  received : ∀ name, s.received name = h.reverse.filterMap (·.delivered name)
  hasEntity : ∀ id, s.hasEntity id ↔ h.Since (·.Spawns id) (·.Despawns id)
  pose? : ∀ id pose, s.pose? id = some pose ↔
    h.Since (·.Places id pose) fun e => e.Despawns id ∨ ∃ other, e.Places id other
  hasComponent : ∀ id component, s.componentEnabled? id component ≠ none ↔
    h.Since (·.Equips id component) (·.Despawns id)
  componentEnabled? : ∀ id component enabled, s.componentEnabled? id component = some enabled ↔
    h.Since (·.Switches id component enabled) fun e =>
      e.Despawns id ∨ ∃ other, e.Switches id component other
  numbered : ∀ e ∈ h, ∀ id, e.Spawns id → id.serial ≤ s.spawned

namespace Recalls

theorem empty : Recalls {} [] where
  hasSystem _ := by simp [Scene.hasSystem, Table.contains, get?_empty]
  received _ := rfl
  hasEntity _ := by
    simp [Scene.hasEntity, Table.contains, get?_empty, History.not_since_nil]
  pose? _ _ := by simp [Scene.pose?, get?_empty, History.not_since_nil]
  hasComponent _ _ := by simp [Scene.componentEnabled?, get?_empty, History.not_since_nil]
  componentEnabled? _ _ _ := by simp [Scene.componentEnabled?, get?_empty, History.not_since_nil]
  numbered _ he := by simp at he

variable {s t : Scene} {h : History} (hs : s.Recalls h)

include hs

theorem allNumbered : s.Numbered := by
  intro id hid
  obtain ⟨later, e, earlier, rfl, he, -⟩ := (hs.hasEntity id).mp hid
  exact hs.numbered e (by simp) id he

theorem turn {e : Exchange} (ht : s.Turn e t) : t.Recalls (e :: h) where
  hasSystem name := by rw [ht.hasSystem, hs.hasSystem]; simp
  received name := by
    rw [ht.received, hs.received, List.reverse_cons, List.filterMap_append]
    cases he : e.delivered name <;> simp [he]
  hasEntity id := by rw [ht.hasEntity, hs.hasEntity, History.since_cons]
  pose? id pose := by rw [ht.pose?, hs.pose?, History.since_cons]
  hasComponent id component := by
    rw [ht.hasComponent hs.allNumbered, hs.hasComponent, History.since_cons]
  componentEnabled? id component enabled := by
    rw [ht.componentEnabled? hs.allNumbered, hs.componentEnabled?, History.since_cons]
  numbered f hf id hid := by
    obtain rfl | hf := List.mem_cons.mp hf
    · exact ht.numbered id hid
    · exact Nat.le_trans (hs.numbered f hf id hid) ht.spawned_le

end Recalls

structure Past where
  scene : Scene := {}
  history : History := []

def Past.ask (p : Past) (q : Request) : Past :=
  ⟨(p.scene.perform q).2, p.scene.exchange q :: p.history⟩

def replay (qs : List Request) : Past := qs.foldl Past.ask {}

theorem Past.asks_recalls {p : Past} (h : p.scene.Recalls p.history) (qs : List Request) :
    (qs.foldl Past.ask p).scene.Recalls (qs.foldl Past.ask p).history := by
  induction qs generalizing p with
  | nil => exact h
  | cons q qs ih => exact ih (h.turn (perform_turn p.scene q))

theorem Past.asks_requests (p : Past) (qs : List Request) :
    (qs.foldl Past.ask p).history.map (·.request) = qs.reverse ++ p.history.map (·.request) := by
  induction qs generalizing p with
  | nil => rfl
  | cons q qs ih => rw [List.foldl_cons, ih]; simp [Past.ask, exchange]

def Request.Granted (h : History) : Request → Prop
  | .addSystem _ | .spawn _ _ => True
  | .invoke name _ => ∃ e ∈ h, e.Adds name
  | .despawn id | .addComponent id _ _ | .setPose id _ => h.Since (·.Spawns id) (·.Despawns id)
  | .setComponentEnabled id component _ => h.Since (·.Equips id component) (·.Despawns id)

theorem Recalls.refused_iff {s : Scene} {h : History} (hs : s.Recalls h) (q : Request) :
    (s.perform q).1 = .refused ↔ ¬ q.Granted h := by
  cases q with
  | addSystem name => simp [perform, Request.Granted]
  | spawn label pose => simp [perform, Request.Granted]
  | invoke name command =>
    rw [Request.Granted, ← hs.hasSystem]
    simp only [perform, invoke, Scene.hasSystem, Table.contains]
    cases s.systems.get? name <;> simp [Answer.of]
  | despawn id =>
    rw [Request.Granted, ← hs.hasEntity]
    simp only [perform, despawn]
    cases s.hasEntity id <;> simp [Answer.of]
  | addComponent id component enabled =>
    rw [Request.Granted, ← hs.hasEntity]
    simp only [perform, addComponent, Scene.hasEntity, Table.contains]
    cases s.entities.get? id <;> simp [Answer.of]
  | setComponentEnabled id component enabled =>
    rw [Request.Granted, ← hs.hasComponent]
    simp only [perform, setComponentEnabled, Scene.componentEnabled?, Table.contains]
    cases s.entities.get? id with
    | none => simp [Answer.of]
    | some e => cases he : e.components.get? component <;> simp [Answer.of, he]
  | setPose id pose =>
    rw [Request.Granted, ← hs.hasEntity]
    simp only [perform, setPose, Scene.hasEntity, Table.contains]
    cases s.entities.get? id <;> simp [Answer.of]

theorem perform_refused {s : Scene} {q : Request} (h : (s.perform q).1 = .refused) :
    (s.perform q).2 = s := by
  have ht := perform_turn s q
  rw [exchange, h] at ht
  generalize (s.perform q).2 = t at ht
  cases ht
  rfl

/-- The queries of a scene that began empty answer what its history says: the commands that a
system accepted, oldest first, the entities that were spawned and not despawned since, their
last poses and the last state of each of their components. The history also says which request
is granted next, a request that is refused changes nothing, and no identity is given twice. -/
theorem scene_recalls_history (qs : List Request) :
    (replay qs).history.map (·.request) = qs.reverse ∧
    (replay qs).scene.Recalls (replay qs).history ∧
    (∀ q, ((replay qs).scene.perform q).1 = .refused ↔ ¬ q.Granted (replay qs).history) ∧
    (∀ q, ((replay qs).scene.perform q).1 = .refused →
      ((replay qs).scene.perform q).2 = (replay qs).scene) ∧
    ∀ label pose, ∀ e ∈ (replay qs).history,
      ¬ e.Spawns ((replay qs).scene.spawn label pose).1 := by
  have hs : (replay qs).scene.Recalls (replay qs).history := Past.asks_recalls .empty qs
  refine ⟨?_, hs, hs.refused_iff, fun q hq => perform_refused hq, fun label pose e he hspawns => ?_⟩
  · simpa [replay] using Past.asks_requests {} qs
  · have := hs.numbered e he _ hspawns
    simp only [spawn] at this
    omega

/-- A door whose collider was switched off: a light that it does not have cannot be switched, and
the door is the only one of its identity. -/
theorem scene_recalls_history_door :
    let door : EntityId := ⟨"door", 1⟩
    let past := replay [.spawn "door" {}, .addSystem "audio", .addComponent door "collider" true,
      .invoke "audio" ⟨"play", .none⟩, .addSystem "audio",
      .setComponentEnabled door "collider" false]
    let light : Request := .setComponentEnabled door "light" true
    (past.scene.received "audio").length = 1 ∧
    past.scene.componentEnabled? door "collider" = some false ∧
    (past.scene.perform light).1 = .refused ∧ (past.scene.perform light).2 = past.scene ∧
    (⟨.spawn "door" {}, .spawned door⟩ : Exchange) ∈ past.history ∧
    (past.scene.spawn "door" {}).1 ≠ door := by
  intro door past light
  have hrefused : (past.scene.perform light).1 = .refused := by rfl
  have hdoor : (⟨.spawn "door" {}, .spawned door⟩ : Exchange) ∈ past.history := by
    simp [past, replay, Past.ask, exchange, perform, spawn, door]
  obtain ⟨-, -, -, hsame, hnew⟩ := scene_recalls_history [.spawn "door" {}, .addSystem "audio",
    .addComponent door "collider" true, .invoke "audio" ⟨"play", .none⟩, .addSystem "audio",
    .setComponentEnabled door "collider" false]
  refine ⟨by rfl, by rfl, hrefused, hsame light hrefused, hdoor, fun h => ?_⟩
  exact hnew "door" {} _ hdoor ⟨"door", {}, by rw [h]⟩

end Scene

end Sequencer
