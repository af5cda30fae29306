import Sequencer.Proofs.Course.Acts
import Sequencer.Play.Tween

/-!
# The channels of a pose

A tween reads the whole pose of its entity and writes it back, and yet a frame of it changes no
more than the one channel that it animates. What it writes there does not depend on the others.
-/

set_option autoImplicit false

namespace Sequencer

inductive Channel where
  | position
  | rotation
  | scale
  deriving DecidableEq

def Channel.Value : Channel → Type
  | .position => Vec3
  | .rotation => Quat
  | .scale => Vec3

def Pose.on (p : Pose) : (c : Channel) → c.Value
  | .position => p.position
  | .rotation => p.rotation
  | .scale => p.scale

namespace Target

def channel : Target → Channel
  | .position _ => .position
  | .rotation _ => .rotation
  | .scale _ => .scale
  | .lookAt _ => .rotation

variable (target : Target) (start : Pose) (facing : Option Quat) (t : Float32)

theorem blend_other (current : Pose) {c : Channel} (h : c ≠ target.channel) :
    (target.blend start current facing t).on c = current.on c := by
  cases target with
  | position goal => cases c <;> first | rfl | exact absurd rfl h
  | rotation goal => cases c <;> first | rfl | exact absurd rfl h
  | scale goal => cases c <;> first | rfl | exact absurd rfl h
  | lookAt point => cases facing <;> cases c <;> first | rfl | exact absurd rfl h

/-- A rotation towards a point that has no direction leaves its channel as it is, so what is there
counts as well. -/
theorem blend_own {current current' : Pose}
    (h : current'.on target.channel = current.on target.channel) :
    (target.blend start current' facing t).on target.channel =
      (target.blend start current facing t).on target.channel := by
  cases target with
  | position goal => rfl
  | rotation goal => rfl
  | scale goal => rfl
  | lookAt point =>
    cases facing with
    | none => exact h
    | some goal => rfl

end Target

/-- The same scene but for one channel of the pose of an entity, which is as present as it was. -/
structure Scene.SameBut (id : EntityId) (c : Channel) (s t : Scene) : Prop where
  systems : t.systems = s.systems
  spawned : t.spawned = s.spawned
  others : ∀ other, other ≠ id → t.entities.get? other = s.entities.get? other
  own : Option.Rel (fun e e' => e'.components = e.components ∧
    ∀ d, d ≠ c → e'.pose.on d = e.pose.on d) (s.entities.get? id) (t.entities.get? id)

namespace Scene

theorem SameBut.refl (id : EntityId) (c : Channel) (s : Scene) : s.SameBut id c s where
  systems := rfl
  spawned := rfl
  others _ _ := rfl
  own := by
    cases s.entities.get? id with
    | none => exact .none
    | some e => exact .some ⟨rfl, fun _ _ => rfl⟩

theorem setPose_sameBut {s : Scene} {id : EntityId} {c : Channel} {current next : Pose}
    (hpose : s.pose? id = some current) (h : ∀ d, d ≠ c → next.on d = current.on d) :
    s.SameBut id c (s.setPose id next).2 := by
  obtain ⟨e, he, rfl⟩ := Option.map_eq_some_iff.mp hpose
  rw [setPose, he]
  refine ⟨rfl, rfl, fun other hother => Table.get?_put_ne _ _ hother, ?_⟩
  rw [he, Table.get?_put_self]
  exact .some ⟨rfl, h⟩

end Scene

structure Stage.Writable (id : EntityId) (pose : Pose) (s : Stage) : Prop where
  pose : s.host.scene.pose? id = some pose
  free : id ∉ s.host.locked

theorem Stage.Writable.note {id : EntityId} {pose : Pose} {s : Stage} (h : s.Writable id pose)
    (e : Entry) : (s.note e).Writable id pose := ⟨h.pose, h.free⟩

namespace Simple

/-- A pose is written to the scene, or it is refused and nothing is. -/
theorem setPose_scene (id : EntityId) (pose : Pose) (s : Stage) :
    ∃ ok, (setPose id pose s).1 = .ok ok ∧ (setPose id pose s).2.host.scene =
      if ok then (s.host.scene.setPose id pose).2 else s.host.scene := by
  simp only [setPose, Act.bind_apply, Act.read, Act.note]
  by_cases hlocked : id ∈ s.host.locked
  · simp only [hlocked, decide_true, if_true]
    exact ⟨false, rfl, rfl⟩
  · simp only [hlocked, decide_false, Bool.false_eq_true, if_false]
    refine ⟨(s.host.scene.setPose id pose).1, rfl, ?_⟩
    show (s.host.scene.setPose id pose).2 = _
    rw [Scene.setPose]
    split <;> rfl

theorem setPose_writable {id : EntityId} {current : Pose} {s : Stage} (h : s.Writable id current)
    (next : Pose) : ∃ t, setPose id next s = (.ok true, t) ∧ t.Writable id next := by
  obtain ⟨e, he, -⟩ := Option.map_eq_some_iff.mp h.pose
  have hset : s.host.scene.setPose id next = (true, { s.host.scene with
      entities := s.host.scene.entities.put id { e with pose := next } }) := by
    rw [Scene.setPose, he]
  have hput : (s.host.scene.setPose id next).2.pose? id = some next := by
    rw [hset, Scene.pose?, Table.get?_put_self]
    rfl
  refine ⟨(s.inScene (·.setPose id next)).2.note (.poseSet id next true), ?_, ⟨hput, h.free⟩⟩
  simp only [setPose, Act.bind_apply, Act.read, Act.note, h.free, decide_false, Bool.false_eq_true,
    if_false, Act.inScene, Stage.inScene, hset]
  rfl

end Simple

namespace Tween

section

variable (t : Tween) (owner : String) {dt : Float32} {p : TweenProgress} {start current : Pose}
  {s u : Stage}

def next (t : Tween) (dt : Float32) (p : TweenProgress) (start current : Pose) : Pose :=
  t.target.blend start current p.facing (t.curve.apply (t.progress (p.elapsed + dt)))

theorem tick_set {ok : Bool} (hstart : p.start = some start)
    (hpose : s.host.scene.pose? p.entity = some current)
    (hset : Simple.setPose p.entity (t.next dt p start current) s = (.ok ok, u)) :
    t.tick owner dt (p, s) =
      if ok then
        (.ok (if t.progress (p.elapsed + dt) ≥ 1 then .succeeded else .running),
          { p with elapsed := p.elapsed + dt }, u)
      else (.ok .failed, { p with elapsed := p.elapsed + dt },
        u.note (.notice (.notWritable owner t.target.label p.entity))) := by
  rw [next] at hset
  simp only [tick, Play.bind_apply, Play.read, Play.onStage, Act.read, Play.write, hstart, hpose,
    hset]
  cases ok <;> rfl

theorem tick_missing (h : p.start = none ∨ s.host.scene.pose? p.entity = none) :
    t.tick owner dt (p, s) =
      (.ok .failed, p, s.note (.notice (.targetMissing owner t.target.label p.entity))) := by
  simp only [tick, Play.bind_apply, Play.read, Play.onStage, Act.read]
  rcases h with h | h
  · rw [h]
    rfl
  · rw [h]
    cases p.start <;> rfl

/-- A frame of a tween changes no more of the scene than its channel, and nothing if it fails. -/
theorem tick_sameBut (dt : Float32) (p : TweenProgress) (s : Stage) :
    let r := t.tick owner dt (p, s)
    (∃ status, r.1 = .ok status) ∧
    s.host.scene.SameBut p.entity t.target.channel r.2.2.host.scene ∧
    (r.1 = .ok .failed → r.2.2.host.scene = s.host.scene) := by
  intro r
  cases hstart : p.start with
  | none =>
    have hr : r = _ := t.tick_missing owner (.inl hstart)
    rw [hr]
    exact ⟨⟨_, rfl⟩, .refl _ _ _, fun _ => rfl⟩
  | some start =>
  cases hpose : s.host.scene.pose? p.entity with
  | none =>
    have hr : r = _ := t.tick_missing owner (.inr hpose)
    rw [hr]
    exact ⟨⟨_, rfl⟩, .refl _ _ _, fun _ => rfl⟩
  | some current =>
  obtain ⟨ok, hok, hscene⟩ := Simple.setPose_scene p.entity (t.next dt p start current) s
  have hr : r = _ := t.tick_set owner hstart hpose (Prod.ext hok rfl)
  cases ok with
  | false =>
    have hscene := (congrArg (·.2.2.host.scene) hr).trans hscene
    rw [show r.2.2.host.scene = s.host.scene from hscene]
    exact ⟨⟨_, congrArg (·.1) hr⟩, .refl _ _ _, fun _ => rfl⟩
  | true =>
    have hscene := (congrArg (·.2.2.host.scene) hr).trans hscene
    rw [if_pos rfl] at hscene
    rw [show r.2.2.host.scene = _ from hscene]
    refine ⟨⟨_, congrArg (·.1) hr⟩, Scene.setPose_sameBut hpose fun d hd =>
      t.target.blend_other _ _ _ _ hd, fun hfailed => ?_⟩
    rw [hr] at hfailed
    simp only [if_true] at hfailed
    split at hfailed <;> cases hfailed

/-- While its entity can be written a tween goes on until it is at its end. -/
theorem tick_writable (dt : Float32) (hstart : p.start = some start)
    (h : s.Writable p.entity current) :
    ∃ u, t.tick owner dt (p, s) =
        (.ok (if t.progress (p.elapsed + dt) ≥ 1 then .succeeded else .running),
          { p with elapsed := p.elapsed + dt }, u) ∧
      u.Writable p.entity (t.next dt p start current) := by
  obtain ⟨u, hset, hu⟩ := Simple.setPose_writable h (t.next dt p start current)
  exact ⟨u, t.tick_set owner hstart h.pose hset, hu⟩

theorem enter_writable {pose : Pose} (h : s.Writable p.entity pose) :
    t.enter (p, s) =
      (.ok (), ⟨p.entity, 0, some pose, t.target.facing (some pose)⟩, s) := by
  simp only [enter, Play.bind_apply, Play.read, Play.onStage, Act.read, Play.write, h.pose]

end

end Tween

end Sequencer
