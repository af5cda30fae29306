import Sequencer.Proofs.Channels
import Sequencer.Proofs.SideBySide

/-!
# Motions of one entity

Tweens of one entity as motions: how far each of them is, and what its next frame makes of the pose.
A frame of many motions is the frames of each of them one after the other. As far as it can be seen
on the channel of one of them, the others might as well not be there.
-/

set_option autoImplicit false

namespace Sequencer

/-- A tween with its progress, and the status that it has settled with. -/
structure Motion where
  tween : Tween
  progress : TweenProgress
  settled : Option Status

namespace Motion

def channel (m : Motion) : Channel := m.tween.target.channel

def branch (m : Motion) : Branch := ⟨⟨.tween m.tween, m.progress⟩, m.settled⟩

def begun (pose : Pose) (m : Motion) : Motion :=
  ⟨m.tween, ⟨m.progress.entity, 0, some pose, m.tween.target.facing (some pose)⟩, none⟩

def step (dt : Float32) (m : Motion) : Motion :=
  if m.settled.isSome then m
  else
    { m with
      progress := { m.progress with elapsed := m.progress.elapsed + dt }
      settled :=
        if m.tween.progress (m.progress.elapsed + dt) ≥ 1 then some .succeeded else none }

def write (dt : Float32) (current : Pose) (m : Motion) : Pose :=
  if m.settled.isSome then current
  else
    match m.progress.start with
    | some start => m.tween.next dt m.progress start current
    | none => current

def advance (x : Motion × Pose) (dt : Float32) : Motion × Pose := (x.1.step dt, x.1.write dt x.2)

def advanceAll (x : List Motion × Pose) (dt : Float32) : List Motion × Pose :=
  (x.1.map (step dt), x.1.foldl (write dt) x.2)

section

variable (dt : Float32) {m : Motion} {l : List Motion} {a b : Pose} {c : Channel}

theorem step_settled (h : m.settled.isSome = true) : m.step dt = m := if_pos h

theorem write_settled (h : m.settled.isSome = true) : m.write dt a = a := if_pos h

@[simp] theorem step_tween (m : Motion) : (m.step dt).tween = m.tween := by
  rw [step]
  split <;> rfl

@[simp] theorem step_channel (m : Motion) : (m.step dt).channel = m.channel := by
  rw [channel, step_tween, channel]

@[simp] theorem map_step_channel (l : List Motion) :
    (l.map (step dt)).map channel = l.map channel := by
  rw [List.map_map]
  exact List.map_congr_left fun m _ => m.step_channel dt

theorem write_other (h : c ≠ m.channel) : (m.write dt a).on c = a.on c := by
  rw [write]
  split
  · rfl
  split
  · exact m.tween.target.blend_other _ _ _ _ h
  · rfl

theorem write_own (h : b.on m.channel = a.on m.channel) :
    (m.write dt b).on m.channel = (m.write dt a).on m.channel := by
  rw [write, write]
  split
  · exact h
  split
  · exact m.tween.target.blend_own _ _ _ h
  · exact h

theorem writes_other (h : c ∉ l.map channel) : (l.foldl (write dt) a).on c = a.on c := by
  induction l generalizing a with
  | nil => rfl
  | cons m rest ih =>
    obtain ⟨hm, hrest⟩ := not_or.mp (List.mem_cons.not.mp h)
    rw [List.foldl_cons, ih hrest, write_other dt hm]

/-- Of all the motions only its own writes a channel. -/
theorem writes_own (hl : (l.map channel).Nodup) (hm : m ∈ l)
    (h : b.on m.channel = a.on m.channel) :
    (l.foldl (write dt) a).on m.channel = (m.write dt b).on m.channel := by
  induction l generalizing a with
  | nil => cases hm
  | cons first rest ih =>
    obtain ⟨hfirst, hrest⟩ := List.nodup_cons.mp hl
    rw [List.foldl_cons]
    rcases List.mem_cons.mp hm with rfl | hm
    · rw [writes_other dt hfirst]
      exact (write_own dt h).symm
    · have hne : m.channel ≠ first.channel :=
        fun he => hfirst (he ▸ List.mem_map_of_mem hm)
      exact ih hrest hm (h.trans (write_other dt hne).symm)

end

section

variable {m : Motion} {l : List Motion} {a b : Pose}

theorem advance_settled (dt : Float32) {x : Motion × Pose} (h : x.1.settled.isSome = true) :
    advance x dt = x := by
  rw [advance, step_settled dt h, write_settled dt h]

theorem advanceAll_settled (dt : Float32) {x : List Motion × Pose}
    (h : ∀ m ∈ x.1, m.settled.isSome = true) : advanceAll x dt = x := by
  obtain ⟨l, a⟩ := x
  have hmotions : l.map (step dt) = l :=
    (List.map_congr_left fun m hm => step_settled dt (h m hm)).trans (List.map_id' l)
  have hpose : l.foldl (write dt) a = a := by
    rw [List.foldl_ext _ (fun a _ => a) a fun a m hm => write_settled dt (h m hm)]
    exact List.foldl_fixed l
  rw [advanceAll, hmotions, hpose]

theorem advances_motion (dts : List Float32) :
    (dts.foldl advance (m, b)).1 = dts.foldl (fun m dt => m.step dt) m := by
  induction dts generalizing m b with
  | nil => rfl
  | cons dt rest ih => exact ih

/-- Side by side motions come as far as each of them by itself. -/
theorem advancesAll_motions (dts : List Float32) :
    (dts.foldl advanceAll (l, a)).1 = l.map fun m => (dts.foldl advance (m, b)).1 := by
  simp only [advances_motion]
  induction dts generalizing l a with
  | nil => exact (List.map_id' l).symm
  | cons dt rest ih =>
    rw [List.foldl_cons, advanceAll, ih, List.map_map]
    rfl

theorem advancesAll_other {c : Channel} (h : c ∉ l.map channel) (dts : List Float32) :
    (dts.foldl advanceAll (l, a)).2.on c = a.on c := by
  induction dts generalizing l a with
  | nil => rfl
  | cons dt rest ih =>
    rw [List.foldl_cons, advanceAll, ih (by rw [map_step_channel]; exact h), writes_other dt h]

/-- On its channel a motion shows as if it were alone. -/
theorem advancesAll_own (hl : (l.map channel).Nodup) (hm : m ∈ l)
    (h : b.on m.channel = a.on m.channel) (dts : List Float32) :
    (dts.foldl advanceAll (l, a)).2.on m.channel = (dts.foldl advance (m, b)).2.on m.channel := by
  induction dts generalizing l m a b with
  | nil => exact h.symm
  | cons dt rest ih =>
    have hrest := ih (l := l.map (step dt)) (m := m.step dt) (a := l.foldl (write dt) a)
      (b := m.write dt b) (by rw [map_step_channel]; exact hl) (List.mem_map_of_mem hm)
      (by rw [step_channel]; exact (writes_own dt hl hm h).symm)
    rw [step_channel] at hrest
    exact hrest

end

end Motion

end Sequencer
