import Sequencer.Proofs.InStep

/-!
# The passes of a list

Frame after frame a list drives the child at its cursor. The beats of such a series fall into
spells, one for each child that was entered, and the spells into passes over the list.
-/

set_option autoImplicit false

namespace Sequencer

def settlement : Except Halt Status → Option Status
  | .ok status => if status.isTerminal then some status else none
  | .error _ => none

structure Occasion where
  run : Runner
  dt : Float32
  world : Stage

structure Frame extends Occasion where
  answer : Except Halt Status
  after : Stage

def Frame.Unsettled (f : Frame) : Prop := settlement f.answer = none

instance (f : Frame) : Decidable f.Unsettled := inferInstanceAs (Decidable (_ = _))

namespace Play

variable {π : Type}

def frames (x : Runner → Float32 → Play π Status) : List Occasion → π → List Frame × π
  | [], p => ([], p)
  | o :: rest, p =>
    let r := x o.run o.dt (p, o.world)
    let later := frames x rest r.2.1
    ({ toOccasion := o, answer := r.1, after := r.2.2 } :: later.1, later.2)

theorem frames_append (x : Runner → Float32 → Play π Status) (os : List Occasion) (o : Occasion)
    (p : π) :
    let a := frames x os p
    let r := x o.run o.dt (a.2, o.world)
    frames x (os ++ [o]) p = (a.1 ++ [⟨o, r.1, r.2.2⟩], r.2.1) := by
  induction os generalizing p with
  | nil => rfl
  | cons o' rest ih => simp only [List.cons_append, frames, ih]

end Play

structure Beat where
  child : Nat
  fresh : Bool
  answer : Except Halt Status

/-- In each frame one child of the list was driven, and nobody else called. Whose list it is may
have added something to what the child did. -/
inductive Beats (cue : Cue) (l : List (Step Command)) (added : Except Halt Status → Stage → Stage) :
    List Frame → List Beat → Children l → Children l → Prop
  | nil (c : Children l) : Beats cue l added [] [] c c
  | cons {f : Frame} {fs : List Frame} {b : Beat} {bs : List Beat} {c c' c'' : Children l}
      {t : Stage} : b.child < l.length →
      driveNth f.run f.dt l (cue.child b.child) b.child b.child b.fresh (c, f.world) =
        (b.answer, c', t) →
      f.after = added f.answer t → Beats cue l added fs bs c' c'' →
      Beats cue l added (f :: fs) (b :: bs) c c''

theorem Beats.append {cue : Cue} {l : List (Step Command)}
    {added : Except Halt Status → Stage → Stage} {fs gs : List Frame} {bs ds : List Beat}
    {c c' c'' : Children l}
    (h : Beats cue l added fs bs c c') (h' : Beats cue l added gs ds c' c'') :
    Beats cue l added (fs ++ gs) (bs ++ ds) c c'' := by
  induction h with
  | nil c => exact h'
  | cons hchild hdrive hafter _ ih => exact .cons hchild hdrive hafter (ih h')

/-- The journal gains what a frame of the child does, and messages on top of it. -/
def Beat.Told (σ : Site) (f : Frame) (b : Beat) : Prop :=
  ∃ n l, f.after.journal = n ++ (l ++ f.world.journal) ∧ (∀ e ∈ n, ∃ m, e = .notice m) ∧
    (Site.child σ b.child).Driven f.dt b.fresh b.answer l

theorem driveNth_driven {run : Runner} (hrun : run.Follows) (dt : Float32) (cue : Cue)
    (index : Nat) (fresh : Bool) : {l : List (Step Command)} → {n : Nat} → n < l.length →
    (x : Children l × Stage) →
    let y := driveNth run dt l cue index n fresh x
    ∃ j, y.2.2.journal = j ++ x.2.journal ∧ cue.site.Driven dt fresh y.1 j
  | s :: _, 0, _, (c, u) => s.drive_driven hrun cue .flow index dt fresh (c.1, u)
  | _ :: _, _ + 1, h, (c, u) =>
    driveNth_driven hrun dt cue index fresh (Nat.lt_of_succ_lt_succ h) (c.2, u)

/-- The beats, as the journal tells them. -/
theorem Beats.told {cue : Cue} {l : List (Step Command)}
    {added : Except Halt Status → Stage → Stage} {fs : List Frame} {bs : List Beat}
    {c c' : Children l} (h : Beats cue l added fs bs c c')
    (hadded : ∀ r t, ∃ n, (added r t).journal = n ++ t.journal ∧ ∀ e ∈ n, ∃ m, e = .notice m)
    (hrun : ∀ f ∈ fs, f.run.Follows) : List.Forall₂ (Beat.Told cue.site) fs bs := by
  induction h with
  | nil c => exact .nil
  | @cons f fs b bs c c' c'' t hchild hdrive hafter _ ih =>
    obtain ⟨hfirst, hlater⟩ := List.forall_mem_cons.mp hrun
    obtain ⟨j, hj, hdriven⟩ := driveNth_driven hfirst f.dt (cue.child b.child) b.child b.fresh
      hchild (c, f.world)
    obtain ⟨n, hn, hnotices⟩ := hadded f.answer t
    rw [hdrive] at hj hdriven
    have hj : t.journal = j ++ f.world.journal := hj
    exact .cons ⟨n, j, by rw [hafter, hn, hj], hnotices, hdriven⟩ (ih hlater)

/-- The beats of a child from the one in which it is entered on. It settles in the last of them,
if at all. -/
inductive Spell (i : Nat) : List Beat → Option Status → Prop
  | entered (r : Except Halt Status) : Spell i [⟨i, true, r⟩] (settlement r)
  | goesOn {bs : List Beat} (r : Except Halt Status) : Spell i bs none →
      Spell i (bs ++ [⟨i, false, r⟩]) (settlement r)

/-- From child `i` on the children of a list had their spells, one after the other, each of which
settled well enough for the next one. The list has come to child `j`, which may have been entered
but has not settled. -/
inductive Pass (good : Status → Prop) : Nat → List Beat → Nat → Bool → Prop
  | between (i : Nat) : Pass good i [] i false
  | within {i : Nat} {bs : List Beat} : Spell i bs none → Pass good i bs i true
  | next {i j : Nat} {bs rest : List Beat} {status : Status} {entered : Bool} :
      Spell i bs (some status) → good status → Pass good (i + 1) rest j entered →
      Pass good i (bs ++ rest) j entered

namespace Pass

variable {good : Status → Prop} {i j k : Nat} {bs cs : List Beat} {entered : Bool}
  {r : Except Halt Status}

theorem append (h : Pass good i bs j false) (h' : Pass good j cs k entered) :
    Pass good i (bs ++ cs) k entered := by
  generalize hfalse : false = between at h
  induction h with
  | between i => exact h'
  | within => cases hfalse
  | next hspell hgood _ ih =>
    rw [List.append_assoc]
    exact .next hspell hgood (ih h' hfalse)

/-- One more beat of the child that a pass has come to belongs to the spell of that child. -/
theorem spell (h : Pass good i bs j entered) (r : Except Halt Status) :
    ∃ as ds, bs ++ [⟨j, !entered, r⟩] = as ++ ds ∧ Pass good i as j false ∧
      Spell j ds (settlement r) := by
  induction h with
  | between i => exact ⟨[], _, rfl, .between i, .entered r⟩
  | within hspell => exact ⟨[], _, rfl, .between _, .goesOn r hspell⟩
  | next hspell hgood _ ih =>
    obtain ⟨as, ds, hsplit, hpass, hlast⟩ := ih
    refine ⟨_ ++ as, ds, ?_, .next hspell hgood hpass, hlast⟩
    rw [List.append_assoc, hsplit, List.append_assoc]

theorem unsettled (h : Pass good i bs j entered) (hr : settlement r = none) :
    Pass good i (bs ++ [⟨j, !entered, r⟩]) j true := by
  obtain ⟨as, ds, hsplit, hpass, hspell⟩ := h.spell r
  rw [hr] at hspell
  rw [hsplit]
  exact hpass.append (.within hspell)

theorem settled (h : Pass good i bs j entered) {status : Status} (hr : settlement r = some status)
    (hgood : good status) : Pass good i (bs ++ [⟨j, !entered, r⟩]) (j + 1) false := by
  obtain ⟨as, ds, hsplit, hpass, hspell⟩ := h.spell r
  rw [hr] at hspell
  rw [hsplit, ← ds.append_nil]
  exact hpass.append (.next hspell hgood (.between _))

end Pass

def FailedPass (n : Nat) (bs : List Beat) : Prop :=
  ∃ as ds j, bs = as ++ ds ∧ j < n ∧ Pass (· = .succeeded) 0 as j false ∧ Spell j ds (some .failed)

theorem Pass.failed {n j : Nat} {bs : List Beat} {entered : Bool}
    (h : Pass (· = .succeeded) 0 bs j entered) (hj : j < n) :
    FailedPass n (bs ++ [⟨j, !entered, .ok .failed⟩]) := by
  obtain ⟨as, ds, hsplit, hpass, hspell⟩ := h.spell (.ok .failed)
  exact ⟨as, ds, j, hsplit, hj, hpass, hspell⟩

namespace Track

variable {π : Type}

def answer (t : Track π) (length : Nat) (onFailure : OnFailure) (status : Status) : Status :=
  if status.isRunning then .running
  else if status.isFailure && onFailure = .propagate then .failed
  else if t.cursor + 1 < length then .running else .succeeded

theorem tick_past {length : Nat} {onFailure : OnFailure} {drive : Nat → Bool → Play π Status}
    {t : Track π} (h : length ≤ t.cursor) (s : Stage) :
    Track.tick length onFailure drive (t, s) = (.ok .succeeded, t, s) := by
  simp only [Track.tick, Play.bind_apply, Play.read, Nat.not_lt.mpr h, if_false]
  rfl

/-- While there is a child at the cursor the list does what driving that child does. -/
theorem tick_beat {length : Nat} {onFailure : OnFailure} {drive : Nat → Bool → Play π Status}
    {t : Track π} (h : t.cursor < length) {s u : Stage} {r : Except Halt Status} {children : π}
    (hdrive : drive t.cursor (!t.entered) (t.children, s) = (r, children, u)) :
    Track.tick length onFailure drive (t, s) =
      (r.map (t.answer length onFailure), t.driven children r, u) := by
  simp only [Track.tick, Play.bind_apply, Play.read, h, if_true, Play.change, onChildren, Play.part,
    hdrive]
  cases r with
  | error e => rfl
  | ok status =>
    cases status with
    | running => rfl
    | succeeded => rfl
    | failed => cases onFailure <;> rfl

end Track

end Sequencer
