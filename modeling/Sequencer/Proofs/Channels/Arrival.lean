import Sequencer.Proofs.Channels
import Sequencer.Proofs.Passes
import Sequencer.Proofs.Decimal.Exact

/-!
# Where a tween comes to rest

A tween along a straight line is done at progress one, where every curve is at one too. What it
has written then is the start plus the difference of its end value and the start, each rounded
once. It is the end value if that difference is a number, and may miss it if the difference was
rounded.
-/

set_option autoImplicit false

namespace Sequencer

open Float.Model Float.Model.UnpackedFloat

theorem one_not_le {x : Float32} (h : x < 1) : ¬ (1 : Float32) ≤ x := by
  have hlt : UnpackedFloat.compare x.toModel.unpack (1 : Float32).toModel.unpack = some .lt := by
    exact beq_iff_eq.mp (of_decide_eq_true h)
  intro hle
  have hle : (UnpackedFloat.compare (1 : Float32).toModel.unpack x.toModel.unpack).any (·.isLE) =
      true := of_decide_eq_true hle
  rw [Decimal.one_unpack] at hlt hle
  cases hx : x.toModel.unpack with
  | notANumber => simp [hx, UnpackedFloat.compare] at hlt
  | infinity s => cases s <;> simp [hx, UnpackedFloat.compare] at hlt hle
  | zero s => simp [hx, UnpackedFloat.compare] at hle
  | finite s m e hm =>
    cases s with
    | negative => simp [hx, UnpackedFloat.compare] at hle
    | positive =>
      simp only [hx, UnpackedFloat.compare, Option.some.injEq, Option.any_some] at hlt hle
      rw [Std.OrientedOrd.eq_swap (a := (-23 : Int)), Std.OrientedOrd.eq_swap (a := 2 ^ 23),
        ← Ordering.swap_then, hlt] at hle
      cases hle

theorem Curve.apply_one (c : Curve) : c.apply 1 = 1 := by
  cases c <;> decide +kernel

theorem lerp_one (a b : Float32) : lerp a b 1 = a + (b - a) := by
  rw [lerp, Decimal.times_one]

theorem Tween.progress_one {t : Tween} {elapsed : Float32} (h : t.progress elapsed ≥ 1) :
    t.progress elapsed = 1 := by
  simp only [Tween.progress] at h ⊢
  split at h
  · next hd => rw [if_pos hd]
  · next hd =>
    rw [if_neg hd]
    split at h
    · next hp => exact absurd h (one_not_le hp)
    · next hp => rw [if_neg hp]

def Target.goal? : Target → Option Vec3
  | .position goal => some goal
  | .scale goal => some goal
  | .rotation _ => none
  | .lookAt _ => none

def Target.vector (target : Target) (p : Pose) : Vec3 :=
  match target with
  | .scale _ => p.scale
  | _ => p.position

theorem Target.blend_vector {target : Target} {goal : Vec3} (h : target.goal? = some goal)
    (start current : Pose) (facing : Option Quat) (t : Float32) :
    target.vector (target.blend start current facing t) = (target.vector start).lerp goal t := by
  cases target with
  | position value =>
    obtain rfl := Option.some.inj h
    rfl
  | scale value =>
    obtain rfl := Option.some.inj h
    rfl
  | rotation value => cases h
  | lookAt point => cases h

inductive Axis where
  | x
  | y
  | z

def Vec3.along (v : Vec3) : Axis → Float32
  | .x => v.x
  | .y => v.y
  | .z => v.z

theorem Vec3.lerp_along (a b : Vec3) (t : Float32) (axis : Axis) :
    (a.lerp b t).along axis = Sequencer.lerp (a.along axis) (b.along axis) t := by
  cases axis <;> rfl

theorem Scene.setPose_pose? {s : Scene} {id : EntityId} {current : Pose}
    (h : s.pose? id = some current) (next : Pose) : (s.setPose id next).2.pose? id = some next := by
  obtain ⟨e, he, -⟩ := Option.map_eq_some_iff.mp h
  rw [setPose, he, pose?, Table.get?_put_self]
  rfl

namespace Tween

variable (t : Tween) (owner : String)

/-- A frame moves the clock of a tween and no more of what it remembers. The frame in which it
succeeds is at progress one, and its pose is in the scene then. -/
theorem tick_arrives (dt : Float32) (p : TweenProgress) (s : Stage) :
    let r := t.tick owner dt (p, s)
    (∃ elapsed, r.2.1 = { p with elapsed }) ∧
    (r.1 = .ok .succeeded → ∃ start current, p.start = some start ∧
      r.2.2.host.scene.pose? p.entity = some (t.next dt p start current) ∧
      t.progress (p.elapsed + dt) = 1) := by
  intro r
  cases hstart : p.start with
  | none =>
    have hr : r = _ := t.tick_missing owner (.inl hstart)
    rw [hr]
    exact ⟨⟨p.elapsed, by rw [← hstart]⟩, nofun⟩
  | some start =>
  cases hpose : s.host.scene.pose? p.entity with
  | none =>
    have hr : r = _ := t.tick_missing owner (.inr hpose)
    rw [hr]
    exact ⟨⟨p.elapsed, by rw [← hstart]⟩, nofun⟩
  | some current =>
  obtain ⟨ok, hok, hscene⟩ := Simple.setPose_scene p.entity (t.next dt p start current) s
  have hr : r = _ := t.tick_set owner hstart hpose (Prod.ext hok rfl)
  cases ok with
  | false =>
    rw [hr]
    exact ⟨⟨_, by rw [← hstart]; rfl⟩, nofun⟩
  | true =>
    rw [if_pos rfl] at hr hscene
    rw [hr]
    refine ⟨⟨_, by rw [← hstart]⟩, fun h => ⟨start, current, rfl, ?_, ?_⟩⟩
    · rw [hscene, Scene.setPose_pose? hpose]
    · by_cases hone : t.progress (p.elapsed + dt) ≥ 1
      · exact progress_one hone
      · simp only [hone, if_false] at h
        cases h

theorem frames_remember (cue : Cue) (os : List Occasion) (p : TweenProgress) :
    ∃ elapsed, (Play.frames (fun _ dt => t.tick cue.owner dt) os p).2 = { p with elapsed } := by
  induction os generalizing p with
  | nil => exact ⟨p.elapsed, rfl⟩
  | cons o os ih =>
    obtain ⟨elapsed, hp⟩ := (t.tick_arrives cue.owner o.dt p o.world).1
    obtain ⟨elapsed', hlater⟩ := ih (t.tick cue.owner o.dt (p, o.world)).2.1
    refine ⟨elapsed', hlater.trans ?_⟩
    rw [hp]

theorem enter_remembers (p : TweenProgress) (s : Stage) :
    (t.enter (p, s)).2.1.entity = p.entity ∧
      (t.enter (p, s)).2.1.start = s.host.scene.pose? p.entity := ⟨rfl, rfl⟩

end Tween

/-- When a tween along a straight line succeeds, each number of its channel is the start plus the
difference of its end value and the start, and so it is the end value if that difference is
exact. -/
theorem finished_tween_rests (t : Tween) (goal : Vec3) (hgoal : t.target.goal? = some goal)
    (run : Runner) (cue : Cue) (p : TweenProgress) (s : Stage) (os : List Occasion) (o : Occasion) :
    let e := (Step.tween t).enter run cue (p, s)
    let x := Play.frames (fun run dt => (Step.tween t).tick run dt cue) os e.2.1
    let r := (Step.tween t).tick o.run o.dt cue (x.2, o.world)
    r.1 = .ok .succeeded → ∃ start shown, s.host.scene.pose? p.entity = some start ∧
      r.2.2.host.scene.pose? p.entity = some shown ∧
      ∀ axis, let a := (t.target.vector start).along axis
        let b := goal.along axis
        (t.target.vector shown).along axis = a + (b - a) ∧
        ∀ u v, Decimal.value? a = some u → Decimal.value? b = some v →
          Decimal.value? (b - a) = some (v - u) →
          ((t.target.vector shown).along axis == b) = true := by
  intro e x r hr
  obtain ⟨elapsed, hx⟩ : ∃ elapsed, x.2 = { e.2.1 with elapsed } :=
    t.frames_remember cue os e.2.1
  obtain ⟨hentity, hentered⟩ := t.enter_remembers p s
  obtain ⟨start, current, hstart, hshown, hprogress⟩ :=
    (t.tick_arrives cue.owner o.dt x.2 o.world).2 hr
  rw [show x.2.start = e.2.1.start by rw [hx], show e.2.1.start = _ from hentered] at hstart
  have hnext : t.next o.dt x.2 start current = t.target.blend start current x.2.facing 1 := by
    show t.target.blend start current _ (t.curve.apply (t.progress (x.2.elapsed + o.dt))) = _
    rw [hprogress, t.curve.apply_one]
  rw [show x.2.entity = e.2.1.entity by rw [hx], show e.2.1.entity = _ from hentity,
    hnext] at hshown
  have hsum (axis : Axis) :
      (t.target.vector (t.target.blend start current x.2.facing 1)).along axis =
        (t.target.vector start).along axis +
          (goal.along axis - (t.target.vector start).along axis) := by
    rw [t.target.blend_vector hgoal, Vec3.lerp_along, lerp_one]
  refine ⟨start, _, hstart, hshown, fun axis => ⟨hsum axis, fun u v hu hv hdifference => ?_⟩⟩
  rw [hsum]
  exact Decimal.add_exact hu hdifference (by rw [hv, add_sub_cancel])

/-- A crate that moves from the origin to ten in two frames is there. -/
theorem finished_tween_rests_crate :
    let t : Tween := ⟨"crate", .position ⟨10, 0, 0⟩, 2, .linear⟩
    let s : Stage := { host := { scene := (({} : Scene).spawn "crate" {}).2 } }
    let p : TweenProgress := { entity := ⟨"crate", 1⟩ }
    let cue : Cue := ⟨"a", .held "h"⟩
    let o : Occasion := ⟨perform 1, 1, s⟩
    let e := (Step.tween t).enter (perform 1) cue (p, s)
    let x := Play.frames (fun run dt => (Step.tween t).tick run dt cue) [o] e.2.1
    let r := (Step.tween t).tick o.run o.dt cue (x.2, o.world)
    r.1 = .ok .succeeded ∧
    ∃ shown, r.2.2.host.scene.pose? p.entity = some shown ∧ (shown.position.x == 10) = true := by
  intro t s p cue o e x r
  have hr : r.1 = .ok .succeeded := by decide +kernel
  have hzero : Decimal.value? 0 = some 0 := rfl
  have hten : Decimal.value? 10 = some 10 := by
    rw [Decimal.value?, show (10 : Float32).toModel.unpack =
      .finite .positive (10 * 2 ^ 20) (-20) (by decide) from rfl]
    norm_num [Sign.apply]
  have hdifference : ((10 : Float32) - 0) = 10 := by decide +kernel
  obtain ⟨start, shown, hstart, hshown, hrests⟩ := finished_tween_rests t ⟨10, 0, 0⟩ rfl
    (perform 1) cue p s [o] o hr
  obtain rfl : ({} : Pose) = start := Option.some.inj hstart
  refine ⟨hr, shown, hshown, (hrests .x).2 0 10 hzero hten ?_⟩
  show Decimal.value? (10 - 0) = some (10 - 0)
  rw [hdifference, hten, sub_zero]

/-- A crate that stands at ten and is to go to a tenth in no time succeeds in its first frame, and
yet comes to rest beside it: the difference of the two was rounded. -/
theorem finished_tween_misses :
    let t : Tween := ⟨"crate", .position ⟨0.1, 0, 0⟩, 0, .linear⟩
    let s : Stage := { host := { scene :=
      (({} : Scene).spawn "crate" { position := ⟨10, 0, 0⟩ }).2 } }
    let p : TweenProgress := { entity := ⟨"crate", 1⟩ }
    let cue : Cue := ⟨"a", .held "h"⟩
    let e := (Step.tween t).enter (perform 1) cue (p, s)
    let r := (Step.tween t).tick (perform 1) 1 cue e.2
    ((10 : Float32).isFinite && (0.1 : Float32).isFinite && (0.1 - 10 : Float32).isFinite) = true ∧
    r.1 = .ok .succeeded ∧
    (r.2.2.host.scene.pose? p.entity).map (·.position.x.toBits) = some 0x3dcccd00 ∧
    (0.1 : Float32).toBits = 0x3dcccccd ∧
    (Float32.ofBits 0x3dcccd00 == 0.1) = false := by
  decide +kernel

end Sequencer
