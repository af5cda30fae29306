import Sequencer.Event
import Sequencer.Table

/-!
# The scene

Entities with a pose and named components, and named systems that record every command
they accept. The scene owns both; steps reach them by identity and by name.
-/

set_option autoImplicit false

namespace Sequencer

/-- The identity of an entity: the name it was called by and the number of the spawn that made
it. Number zero is never given out, so it stands for a name that nothing was spawned under. -/
structure EntityId where
  label : String
  serial : Nat
  deriving DecidableEq

structure Entity where
  pose : Pose
  components : Table String Bool := {}

structure Instruction where
  action : String
  payload : Payload := .none

structure Scene where
  systems : Table String (List Instruction) := {}
  entities : Table EntityId Entity := {}
  spawned : Nat := 0

namespace Scene

def hasSystem (s : Scene) (name : String) : Bool := s.systems.contains name

def hasEntity (s : Scene) (id : EntityId) : Bool := s.entities.contains id

def pose? (s : Scene) (id : EntityId) : Option Pose :=
  (s.entities.get? id).map (·.pose)

def componentEnabled? (s : Scene) (id : EntityId) (component : String) : Option Bool :=
  (s.entities.get? id).bind fun e => e.components.get? component

def received (s : Scene) (name : String) : List Instruction := (s.systems.get? name).getD []

def entityCount (s : Scene) : Nat := s.entities.size

def addSystem (s : Scene) (name : String) : Scene :=
  if s.hasSystem name then s else { s with systems := s.systems.put name [] }

def spawn (s : Scene) (label : String) (pose : Pose) : EntityId × Scene :=
  let id : EntityId := ⟨label, s.spawned + 1⟩
  (id, { s with entities := s.entities.put id { pose }, spawned := s.spawned + 1 })

def despawn (s : Scene) (id : EntityId) : Bool × Scene :=
  if s.hasEntity id then (true, { s with entities := s.entities.erase id }) else (false, s)

def invoke (s : Scene) (name : String) (command : Instruction) : Bool × Scene :=
  match s.systems.get? name with
  | some log => (true, { s with systems := s.systems.put name (log ++ [command]) })
  | none => (false, s)

def addComponent (s : Scene) (id : EntityId) (component : String) (enabled : Bool) :
    Bool × Scene :=
  match s.entities.get? id with
  | some e =>
    (true, { s with
      entities := s.entities.put id { e with components := e.components.put component enabled } })
  | none => (false, s)

def setComponentEnabled (s : Scene) (id : EntityId) (component : String) (enabled : Bool) :
    Bool × Scene :=
  match s.entities.get? id with
  | some e =>
    if e.components.contains component then
      (true, { s with
        entities := s.entities.put id { e with components := e.components.put component enabled } })
    else (false, s)
  | none => (false, s)

def setPose (s : Scene) (id : EntityId) (pose : Pose) : Bool × Scene :=
  match s.entities.get? id with
  | some e => (true, { s with entities := s.entities.put id { e with pose } })
  | none => (false, s)

end Scene

end Sequencer
