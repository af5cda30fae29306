/-!
# Motion

Single-precision vectors and rotations, the curves that shape progress, and interpolation.
Every operation rounds once, in the order in which it is written.
-/

set_option autoImplicit false

namespace Sequencer

structure Vec3 where
  x : Float32
  y : Float32
  z : Float32
  deriving BEq

structure Quat where
  x : Float32
  y : Float32
  z : Float32
  w : Float32
  deriving BEq

inductive Curve where
  | constant
  | linear
  | easeIn
  | easeOut
  | easeInOut
  deriving DecidableEq, Repr

def clampUnit (t : Float32) : Float32 :=
  let t := if t < 0 then 0 else t
  if t > 1 then 1 else t

namespace Curve

def apply (c : Curve) (t : Float32) : Float32 :=
  let t := clampUnit t
  match c with
  | .constant => if t ≥ 1 then 1 else 0
  | .linear => t
  | .easeIn => t * t
  | .easeOut => t * (2 - t)
  | .easeInOut => t * t * (3 - 2 * t)

end Curve

def lerp (a b t : Float32) : Float32 := a + (b - a) * t

namespace Vec3

def zero : Vec3 := ⟨0, 0, 0⟩

def one : Vec3 := ⟨1, 1, 1⟩

def sub (a b : Vec3) : Vec3 := ⟨a.x - b.x, a.y - b.y, a.z - b.z⟩

def length (v : Vec3) : Float32 := (v.x * v.x + v.y * v.y + v.z * v.z).sqrt

def lerp (a b : Vec3) (t : Float32) : Vec3 :=
  ⟨Sequencer.lerp a.x b.x t, Sequencer.lerp a.y b.y t, Sequencer.lerp a.z b.z t⟩

def toList (v : Vec3) : List Float32 := [v.x, v.y, v.z]

end Vec3

namespace Quat

def identity : Quat := ⟨0, 0, 0, 1⟩

def neg (q : Quat) : Quat := ⟨-q.x, -q.y, -q.z, -q.w⟩

def dot (a b : Quat) : Float32 := a.x * b.x + a.y * b.y + a.z * b.z + a.w * b.w

def toList (q : Quat) : List Float32 := [q.x, q.y, q.z, q.w]

def normalize (q : Quat) : Quat :=
  let len := (q.dot q).sqrt
  if len < 1e-6 then identity else ⟨q.x / len, q.y / len, q.z / len, q.w / len⟩

def lerp (a b : Quat) (t : Float32) : Quat :=
  ⟨Sequencer.lerp a.x b.x t, Sequencer.lerp a.y b.y t,
    Sequencer.lerp a.z b.z t, Sequencer.lerp a.w b.w t⟩

/-- Along the arc between two rotations that lie in one hemisphere, given the cosine of the
angle between them. Nearly equal rotations are interpolated on the chord. -/
def alongArc (a b : Quat) (cosine t : Float32) : Quat :=
  if cosine > 0.9995 then (a.lerp b t).normalize
  else
    let whole := cosine.acos
    let part := whole * t
    let s := whole.sin
    let s0 := (whole - part).sin / s
    let s1 := part.sin / s
    ⟨a.x * s0 + b.x * s1, a.y * s0 + b.y * s1, a.z * s0 + b.z * s1, a.w * s0 + b.w * s1⟩

def slerp (a b : Quat) (t : Float32) : Quat :=
  let d := a.dot b
  if d < 0 then alongArc a b.neg (-d) t else alongArc a b d t

/-- The rotation that turns the forward axis +Z towards a direction, by the shortest arc. A
direction of no length has none. -/
def facing (direction : Vec3) : Option Quat :=
  let len := direction.length
  if len < 1e-6 then none
  else
    let d : Vec3 := ⟨direction.x / len, direction.y / len, direction.z / len⟩
    if d.z < -0.9999 then some ⟨0, 1, 0, 0⟩
    else some (normalize ⟨-d.y, d.x, 0, 1 + d.z⟩)

end Quat

structure Pose where
  position : Vec3 := .zero
  rotation : Quat := .identity
  scale : Vec3 := .one
  deriving BEq

end Sequencer
