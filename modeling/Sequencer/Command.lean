import Sequencer.Bookmark
import Sequencer.Step

/-!
# Commands

What a host can ask for, from outside or from a callback. Queries read the world, changes edit
it without calling anything back; the other commands may run callbacks, and so further commands.
-/

set_option autoImplicit false

namespace Sequencer

inductive Query where
  | isPaused (sequence : String)
  | isRunning (sequence : String)
  | contains (sequence : String)
  | activeCount
  | names
  | summary
  | settings
  | barrierCount (name : String)
  | barriers
  | events
  | received (system : String)
  | hasSystem (name : String)
  | hasEntity (label : String)
  | entityCount
  | componentEnabled (label component : String)
  | pose (label : String)

inductive Change where
  | engine (frame : Nat) (elapsed : Float) (timeScale : Float32)
  | flag (name : String) (value : Bool)
  | count (name : String) (amount : Int)
  | publish (event : Event)
  | takeEvents
  | addSystem (name : String)
  | invoke (system : String) (command : Instruction)
  | spawn (label : String) (pose : Pose)
  | despawn (label : String)
  | addComponent (label component : String) (enabled : Bool)
  | setComponent (label component : String) (enabled : Bool)
  | setPose (label : String) (pose : Pose)
  /-- From now on the pose of this entity cannot be written. -/
  | lock (label : String)
  | arrive (barrier : String)

inductive Place where
  | at (bookmark : Bookmark)
  | kept (name : String)

inductive Command where
  | register (outline : Outline Command)
  | start (sequence : String)
  | stop (sequence : String)
  | pause (sequence : String)
  | resume (sequence : String)
  | togglePause (sequence : String)
  | reset (sequence : String)
  | remove (sequence : String)
  /-- One frame, or as many numbered frames as given. -/
  | tick (dt : Float32) (count : Option Nat)
  | capture (sequence : String) (keepAs : Option String)
  | restore (place : Place)
  | ask (query : Query)
  | edit (change : Change)
  | panic (message : String)
  /-- Keeps a step that the host drives by itself. -/
  | holdStep (slot : String) (step : Step Command)
  | enterHeld (slot : String)
  | tickHeld (slot : String) (dt : Float32)
  | exitHeld (slot : String)
  /-- Keeps a list of steps that the host drives by itself. -/
  | holdTrack (slot : String) (steps : List (Step Command)) (onFailure : OnFailure)
  | tickTrack (slot : String) (dt : Float32)
  | cancelTrack (slot : String)
  | rewindTrack (slot : String)
  /-- Keeps a sequence that is not registered. -/
  | holdSequence (slot : String) (outline : Outline Command)
  | registerHeld (slot : String)

end Sequencer
