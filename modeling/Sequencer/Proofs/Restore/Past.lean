import Sequencer.Proofs.ActiveList
import Sequencer.Proofs.Timing.Past

/-!
# The past of sequences

Whatever happened to a sequence, the progress of its steps was left behind by calls of these steps
since the sequence was built: nothing else ever touches it.
-/

set_option autoImplicit false

namespace Sequencer

open Site (Within)

def Sequence.BuiltBy (resolve : String → EntityId) (q : Sequence) : Prop :=
  ∀ part ∈ q.parts, part.step.Left (part.step.fresh resolve) part.progress

theorem Sequence.builtBy_build (resolve : String → EntityId) (o : Outline Command) :
    (Sequence.build resolve o).BuiltBy resolve := by
  intro part hpart
  obtain ⟨s, -, rfl⟩ := List.mem_map.mp hpart
  exact .nothing

theorem Sequence.BuiltBy.withPart {resolve : String → EntityId} {q : Sequence}
    (h : q.BuiltBy resolve) {part : Part}
    (hpart : part.step.Left (part.step.fresh resolve) part.progress) (index : Nat) :
    (q.withPart index part).BuiltBy resolve := by
  intro other hother
  rcases List.mem_or_eq_of_mem_set hother with hold | rfl
  · exact h other hold
  · exact hpart

def Stage.Built (s : Stage) : Prop := ∀ id, ∃ resolve, (s.sequence id).BuiltBy resolve

theorem Stage.Built.of_parts {s t : Stage} (hs : s.Built)
    (h : ∀ id, (t.sequence id).parts = (s.sequence id).parts) : t.Built := by
  intro id
  obtain ⟨resolve, hbuilt⟩ := hs id
  refine ⟨resolve, fun part hpart => hbuilt part ?_⟩
  rwa [h id] at hpart

theorem Incident.built {own : Site → Prop} {s t : Stage} (h : Incident own s t) (hs : s.Sound)
    (hb : s.Built) : t.Built := by
  intro id
  rcases h.parts hs id with hsame | ⟨-, resolve, o, hbuilt⟩
  · obtain ⟨resolve, hid⟩ := hb id
    exact ⟨resolve, fun part hpart => hid part (hsame ▸ hpart)⟩
  · exact ⟨resolve, hbuilt ▸ Sequence.builtBy_build resolve o⟩

/-- The step that was driven comes back with what its calls made of its progress. -/
theorem Stage.Built.driven {run : Runner} {dt : Float32} {s t : Stage} {id : Nat} {part : Part}
    {r : Except Halt Status} {p : part.step.Progress} (hb : s.Built) (ht : t.Built)
    (hs : s.Sound) (hd : Drive run dt s id part r p t) :
    (t.afterPlay id (s.sequence id) ⟨part.step, p⟩ r).Built := by
  obtain ⟨resolve, hbuilt⟩ := hb id
  have hlasts := (hd.leads.lasts (hs.lending id)).2
  have hid : id < t.sequences.length := hd.length hlasts
  have hleft : part.step.Left (part.step.fresh resolve) p := by
    have hkeeps : (Conductor.playPart run dt id (s.sequence id) part).Keeps
        (part.step.Left (part.step.fresh resolve)) :=
      Cue.drive_keeps _ (part.step.enter_left _ _ _) (part.step.tick_left _ _ _ dt)
        (part.step.exit_left _ _ _)
    have hp := hkeeps part.progress (s.lending id) (hbuilt part (List.mem_of_getElem? hd.cursor))
    rwa [hd.play] at hp
  intro i
  by_cases hi : i = id
  · subst hi
    have hwith : (t.sequence i).BuiltBy resolve := by
      intro other hother
      rw [hd.parts hlasts] at hother
      exact hbuilt other hother
    have hset : ((t.sequence i).withPart (s.sequence i).current ⟨part.step, p⟩).BuiltBy resolve :=
      hwith.withPart hleft _
    refine ⟨resolve, fun other hother => hset other ?_⟩
    rwa [t.parts_afterPlay _ _ _ hid] at hother
  · rw [t.sequence_afterPlay_ne id _ _ _ hi]
    exact ht i

theorem Course.built {own : Site → Prop} {calm : Bool} {s t : Stage} (h : Course own calm s t)
    (hs : s.Sound) (hb : s.Built) : t.Built := by
  induction h with
  | single h => exact h.built hs hb
  | halt _ ih => exact ih hs hb
  | trans h _ ih ih' => exact ih' (h.lasts hs).1 (ih hs hb)
  | widen _ _ ih => exact ih hs hb
  | @driven own run dt s t id part r p hd _ ih =>
    exact hb.driven (ih (hs.lending id) (hb.of_parts (s.parts_lending id))) hs hd

/-- Between commands of the host every sequence is what its calls left behind of what was built. -/
theorem Session.built {calm : Bool} {settings : Settings} {host : Host} {s : Stage}
    (h : Session calm (.opening settings host) s) : s.Built := by
  apply h.leads.course.built (Stage.opening_sound settings host)
  intro id
  refine ⟨fun label => ⟨label, 0⟩, fun part hpart => ?_⟩
  rw [Stage.sequence_opening] at hpart
  exact absurd hpart (List.not_mem_nil)

end Sequencer
