import Sequencer.Board
import Sequencer.Sequence

/-!
# The stage

The whole world that commands act on: the host's own state, the sequences with their registry
and their active list, the barrier board, what the host holds in its own hands, and the journal.

Sequences are numbered in the order in which they were made and keep their number when they are
removed, so that a new sequence of an old name is another sequence.
-/

set_option autoImplicit false

namespace Sequencer

structure Engine where
  frame : Nat := 0
  elapsed : Float := 0
  timeScale : Float32 := 1

/-- What belongs to the host and is not touched by the registry of sequences. -/
structure Host where
  scene : Scene := {}
  /-- Whom a name means. -/
  entities : Table String EntityId := {}
  locked : List EntityId := []
  flags : Table String Bool := {}
  counters : Table String Int := {}
  engine : Engine := {}
  events : List Event := []
  /-- Events go nowhere. -/
  muted : Bool := false
  bookmarks : Table String Bookmark := {}

def Host.resolve (h : Host) (label : String) : EntityId :=
  (h.entities.get? label).getD ⟨label, 0⟩

structure HeldTrack where
  steps : List (Step Command)
  onFailure : OnFailure
  track : Track (Children steps)

inductive Held where
  | part (part : Part)
  | track (track : HeldTrack)
  | sequence (sequence : Sequence)

structure Stage where
  settings : Settings := {}
  sequences : List Sequence := []
  registry : Table String Nat := {}
  active : List Nat := []
  barriers : Board := {}
  host : Host := {}
  held : Table String Held := {}
  /-- Newest first. -/
  journal : List Entry := []

structure StageView where
  active : Nat
  sequences : List SequenceInfo
  barriers : List (String × UInt32)

namespace Stage

def note (e : Entry) (s : Stage) : Stage := { s with journal := e :: s.journal }

def sequence (s : Stage) (id : Nat) : Sequence := s.sequences[id]?.getD {}

def find? (s : Stage) (name : String) : Option Nat := s.registry.get? name

def named? (s : Stage) (name : String) : Option Sequence := (s.find? name).map s.sequence

def isRunning (s : Stage) (name : String) : Bool :=
  ((s.named? name).map (·.running)).getD false

def isPaused (s : Stage) (name : String) : Bool := ((s.named? name).map (·.paused)).getD false

def modify (id : Nat) (f : Sequence → Sequence) (s : Stage) : Stage :=
  { s with sequences := s.sequences.modify id f }

def enroll (q : Sequence) (s : Stage) : Stage :=
  { s with
    sequences := s.sequences ++ [q]
    registry := s.registry.put q.name s.sequences.length }

def unregister (name : String) (s : Stage) : Stage :=
  { s with registry := s.registry.erase name }

def enlist (id : Nat) (s : Stage) : Stage :=
  if id ∈ s.active then s else { s with active := s.active ++ [id] }

def delist (id : Nat) (s : Stage) : Stage :=
  { s with active := s.active.filter (· ≠ id) }

def arrive (barrier : String) (s : Stage) : Stage :=
  { s with barriers := s.barriers.arrive barrier }.note (.arrived barrier)

def inScene {α : Type} (f : Scene → α × Scene) (s : Stage) : α × Stage :=
  let r := f s.host.scene
  (r.1, { s with host := { s.host with scene := r.2 } })

def registered (s : Stage) : List Sequence := s.registry.entries.map fun e => s.sequence e.2

def view (s : Stage) : StageView :=
  { active := s.active.length
    sequences := s.registered.map (·.info)
    barriers := s.barriers.counters.entries }

def summary (s : Stage) : String :=
  let line (q : Sequence) : String :=
    "  " ++ q.name ++ " [" ++ (if q.running then "running" else "idle") ++
      (if q.paused then ", paused" else "") ++ "] step " ++ toString q.current ++ "/" ++
      toString q.stepCount ++ "\n"
  let barrier (c : String × UInt32) : String :=
    "  barrier " ++ c.1 ++ " = " ++ toString c.2.toNat ++ "\n"
  "Orchestrator: " ++ toString s.registry.size ++ " sequence(s), " ++
    toString s.active.length ++ " active\n" ++ String.join (s.registered.map line) ++
    String.join (s.barriers.counters.entries.map barrier)

end Stage

end Sequencer
