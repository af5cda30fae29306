import Sequencer.Motion

/-!
# Events

What a running sequence tells its host: a bare signal, or a named event with a payload.
-/

set_option autoImplicit false

namespace Sequencer

inductive Payload where
  | none
  | bool (value : Bool)
  | int (value : Int)
  | float (value : Float32)
  | vec3 (value : Vec3)
  | text (value : String)
  deriving BEq

namespace Payload

def bool? : Payload → Option Bool
  | .bool v => some v
  | _ => Option.none

def int? : Payload → Option Int
  | .int v => some v
  | _ => Option.none

def float? : Payload → Option Float32
  | .float v => some v
  | _ => Option.none

def vec3? : Payload → Option Vec3
  | .vec3 v => some v
  | _ => Option.none

def text? : Payload → Option String
  | .text v => some v
  | _ => Option.none

end Payload

inductive Event where
  | signal (name : String)
  | custom (name : String) (payload : Payload)

namespace Event

def name : Event → String
  | .signal n => n
  | .custom n _ => n

def payload : Event → Payload
  | .signal _ => .none
  | .custom _ p => p

end Event

end Sequencer
