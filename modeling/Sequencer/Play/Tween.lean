import Sequencer.Play.Simple

/-!
# Tweens

One channel of an entity's pose, moved from where it stood when the step was entered to its
end value. Each frame writes only that channel, so tweens on different channels of one entity
can run side by side.
-/

set_option autoImplicit false

namespace Sequencer

def Tween.progress (t : Tween) (elapsed : Float32) : Float32 :=
  if t.duration ≤ 0 then 1
  else
    let p := elapsed / t.duration
    if p < 1 then p else 1

def Target.blend (target : Target) (start current : Pose) (facing : Option Quat)
    (t : Float32) : Pose :=
  match target with
  | .position goal => { current with position := start.position.lerp goal t }
  | .scale goal => { current with scale := start.scale.lerp goal t }
  | .rotation goal => { current with rotation := start.rotation.slerp goal t }
  | .lookAt _ =>
    match facing with
    | some goal => { current with rotation := start.rotation.slerp goal t }
    | none => current

def Target.facing (target : Target) (start : Option Pose) : Option Quat :=
  match target, start with
  | .lookAt point, some s => Quat.facing (point.sub s.position)
  | _, _ => none

namespace Tween

def enter (t : Tween) : Play TweenProgress Unit := do
  let p ← Play.read
  let start ← Play.onStage (.read (·.host.scene.pose? p.entity))
  Play.write { p with elapsed := 0, start, facing := t.target.facing start }

def tick (t : Tween) (owner : String) (dt : Float32) : Play TweenProgress Status := do
  let p ← Play.read
  let current? ← Play.onStage (.read (·.host.scene.pose? p.entity))
  match p.start, current? with
  | some start, some current =>
    let elapsed := p.elapsed + dt
    Play.write { p with elapsed }
    let progress := t.progress elapsed
    let next := t.target.blend start current p.facing (t.curve.apply progress)
    if ← Play.onStage (Simple.setPose p.entity next) then
      return if progress ≥ 1 then .succeeded else .running
    else
      Play.say (.notWritable owner t.target.label p.entity)
      return .failed
  | _, _ =>
    Play.say (.targetMissing owner t.target.label p.entity)
    return .failed

end Tween

end Sequencer
