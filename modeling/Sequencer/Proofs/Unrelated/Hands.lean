import Sequencer.Held
import Sequencer.Proofs.Unrelated.Turns

/-!
# The hands of the host, and what is built alike

What the host drives by hand belongs to no sequence. It goes unnoticed by the sequences of a name, if
it keeps to itself and the name is not the one that it is called for. And wherever a sequence that
keeps to itself is built, it is built alike: none of its steps remembers an entity.
-/

set_option autoImplicit false

namespace Sequencer

section

variable {own : String → Prop} {asked : Question Command → Prop} (resolve resolve' : String → EntityId)

mutual

/-- Whomever the names mean. -/
theorem Step.fresh_akin : (x : Step Command) → x.Each (Step.KeepsTo own) asked →
    x.Akin (x.fresh resolve) (x.fresh resolve')
  | .wait _, _ => rfl
  | .frames _, _ => rfl
  | .publish _, _ => trivial
  | .invoke _ _, _ => trivial
  | .component _ _ _, h => h.elim
  | .call _, _ => trivial
  | .startSequence _, _ => trivial
  | .stopSequence _, _ => trivial
  | .tween _, h => h.elim
  | .choose _ yes no, h =>
    ⟨rfl, rfl, ⟨rfl, rfl, freshChildren_akin yes h.2.1⟩, ⟨rfl, rfl, freshChildren_akin no h.2.2⟩⟩
  | .await _ _ _, _ => rfl
  | .bounded _ _ steps, h => ⟨rfl, rfl, rfl, freshChildren_akin steps h⟩
  | .retry _ steps, h => ⟨rfl, rfl, rfl, freshChildren_akin steps h⟩
  | .group steps, h => ⟨rfl, rfl, freshChildren_akin steps h⟩
  | .parallel _ steps, h => freshLanes_akin steps h
  | .barrier _ _, _ => ⟨rfl, rfl⟩
  | .probe _ _, _ => rfl
  | .custom _ _ _ _, _ => rfl

theorem freshChildren_akin : (l : List (Step Command)) → stepsEach (Step.KeepsTo own) asked l →
    childrenAkin l (freshChildren resolve l) (freshChildren resolve' l)
  | [], _ => trivial
  | x :: rest, h => ⟨x.fresh_akin h.1, freshChildren_akin rest h.2⟩

theorem freshLanes_akin : (l : List (Step Command)) → stepsEach (Step.KeepsTo own) asked l →
    lanesAkin l (freshLanes resolve l) (freshLanes resolve' l)
  | [], _ => trivial
  | x :: rest, h => ⟨⟨rfl, x.fresh_akin h.1⟩, freshLanes_akin rest h.2⟩

end

theorem Outline.Fits.build_akin {named : String → Prop} {o : Outline Command}
    (h : o.Fits (.apart named own)) :
    (Sequence.build resolve o).Akin (Sequence.build resolve' o) := by
  refine ⟨rfl, fun i => ?_⟩
  simp only [Sequence.build, List.getElem?_map]
  cases hx : o.steps[i]? with
  | none => exact .none
  | some x =>
    exact .some (.intro (x.fresh_akin resolve resolve' (h.steps x (List.mem_of_getElem? hx))))

end

namespace Hands

variable {name : String} {own : String → Prop} {ids : List Nat} {n : Nat} {α : Type} {slot : String}

theorem cueOf_bystanders (hhost : "host" ≠ name) (slot : String) (alone : Stage) :
    (cueOf slot).Mates (.bystanders name own ids n alone) (cueOf slot) := ⟨rfl, hhost, .held slot⟩

theorem playPart_unnoticed {play : (x : Step Command) → Play x.Progress α}
    {answer : Part → α → Reply}
    (h : ∀ x : Step Command, "host" ≠ name → x.Each (Step.KeepsTo (¬ own ·)) Question.IsOwn →
      ∀ alone, Play.Accords (.bystanders name own ids n alone) x.Akin (play x) (play x)) :
    (playPart slot play answer).Unnoticed name own ids n := by
  intro s t hst
  have hheld := hst.held slot
  generalize hs : s.held.get? slot = a at hheld
  generalize t.held.get? slot = b at hheld
  simp only [playPart, hs]
  cases a with
  | none => exact ⟨rfl, hst⟩
  | some x =>
    cases hheld x rfl with
    | mine _ _ => exact ⟨rfl, hst⟩
    | other _ => exact ⟨rfl, hst⟩
    | track _ _ => exact ⟨rfl, hst⟩
    | @part p _ hhost hx =>
      obtain ⟨hr, -, hu⟩ := h _ hhost hx t p.progress p.progress _ _ (.refl _ _)
        (.refl (hst.emptyOther slot))
      exact ⟨(hr.map fun _ => rfl).isOk trivial, hu.left.holdOther slot fun _ => .part hhost hx⟩

theorem playTrack_unnoticed {play : (t : HeldTrack) → Play (Track (Children t.steps)) α}
    {answer : HeldTrack → α → Reply}
    (h : ∀ t : HeldTrack, "host" ≠ name →
      stepsEach (Step.KeepsTo (¬ own ·)) Question.IsOwn t.steps → ∀ alone,
      Play.Accords (.bystanders name own ids n alone) (Track.Akin (childrenAkin t.steps)) (play t)
        (play t)) :
    (playTrack slot play answer).Unnoticed name own ids n := by
  intro s t hst
  have hheld := hst.held slot
  generalize hs : s.held.get? slot = a at hheld
  generalize t.held.get? slot = b at hheld
  simp only [playTrack, hs]
  cases a with
  | none => exact ⟨rfl, hst⟩
  | some x =>
    cases hheld x rfl with
    | mine _ _ => exact ⟨rfl, hst⟩
    | other _ => exact ⟨rfl, hst⟩
    | part _ _ => exact ⟨rfl, hst⟩
    | @track l _ hhost hl =>
      obtain ⟨hr, -, hu⟩ := h l hhost hl t l.track l.track _ _
        ⟨rfl, rfl, childrenAkin_refl _ _⟩ (.refl (hst.emptyOther slot))
      exact ⟨(hr.map fun _ => rfl).isOk trivial, hu.left.holdOther slot fun _ => .track hhost hl⟩

theorem holdStep_unnoticed (slot : String) (hhost : "host" ≠ name) {x : Step Command}
    (hx : x.Each (Step.KeepsTo (¬ own ·)) Question.IsOwn) :
    (holdStep slot x).Unnoticed name own ids n :=
  fun _ _ hst => ⟨rfl, hst.holdOther slot fun _ => .part hhost hx⟩

theorem holdTrack_unnoticed (slot : String) (hhost : "host" ≠ name) {l : List (Step Command)}
    (onFailure : OnFailure) (hl : stepsEach (Step.KeepsTo (¬ own ·)) Question.IsOwn l) :
    (holdTrack slot l onFailure).Unnoticed name own ids n :=
  fun _ _ hst => ⟨rfl, hst.holdOther slot fun _ => .track hhost hl⟩

theorem holdSequence_unnoticed (slot : String) {o : Outline Command}
    (ho : o.Fits (.apart (· ≠ name) (¬ own ·))) :
    (holdSequence slot o).Unnoticed name own ids n :=
  fun _ _ hst => ⟨rfl, hst.holdOther slot fun _ => .other (ho.build _)⟩

theorem rewindTrack_unnoticed (slot : String) : (rewindTrack slot).Unnoticed name own ids n :=
  playTrack_unnoticed fun _ _ _ _ => .change fun _ _ h => h.rewound

section

variable {run : Runner} (hrun : run.SparesOthers) (slot : String)

include hrun

theorem enter_unnoticed : (enter run slot).Unnoticed name own ids n :=
  playPart_unnoticed fun x hhost hx alone =>
    Cue.enter_accords (cueOf_bystanders hhost slot alone)
      (Step.enter_accords x (cueOf_bystanders hhost slot alone)
        ((Accord.bystanders_carries hrun alone).step x "host" hhost hx))

theorem exit_unnoticed : (exit run slot).Unnoticed name own ids n :=
  playPart_unnoticed fun x hhost hx alone =>
    Cue.exit_accords (cueOf_bystanders hhost slot alone)
      (Step.exit_accords x (cueOf_bystanders hhost slot alone)
        ((Accord.bystanders_carries hrun alone).step x "host" hhost hx))

theorem tick_unnoticed (dt : Float32) : (tick run slot dt).Unnoticed name own ids n :=
  playPart_unnoticed fun x hhost hx alone =>
    Cue.tick_accords (cueOf_bystanders hhost slot alone) dt
      (Step.tick_accords x (cueOf_bystanders hhost slot alone) rfl
        ((Accord.bystanders_carries hrun alone).step x "host" hhost hx))

/-- A list of steps is what a group of them does. -/
theorem stepsInAccord_bystanders (hhost : "host" ≠ name) (alone : Stage) {l : List (Step Command)}
    (hl : stepsEach (Step.KeepsTo (¬ own ·)) Question.IsOwn l) :
    stepsInAccord (.bystanders name own ids n alone) run run "host" l :=
  (Accord.bystanders_carries hrun alone).step (.group l) "host" hhost hl

theorem tickTrack_unnoticed (dt : Float32) : (tickTrack run slot dt).Unnoticed name own ids n :=
  playTrack_unnoticed fun t hhost hl alone => Track.tick_accords fun i fresh =>
    driveNth_accords t.steps ((cueOf_bystanders hhost slot alone).child i) rfl i i fresh
      (stepsInAccord_bystanders hrun hhost alone hl)

theorem cancelTrack_unnoticed : (cancelTrack run slot).Unnoticed name own ids n :=
  playTrack_unnoticed fun t hhost hl alone => Track.cancel_accords fun i =>
    exitNth_accords t.steps ((cueOf_bystanders hhost slot alone).child i) i
      (stepsInAccord_bystanders hrun hhost alone hl)

end

end Hands

end Sequencer
