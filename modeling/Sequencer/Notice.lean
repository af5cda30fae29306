import Sequencer.Decimal.Places
import Sequencer.Reply

/-!
# Notices

The messages the sequencer logs, each with its level and the part that logs it.
-/

set_option autoImplicit false

namespace Sequencer

inductive Level where
  | debug
  | info
  | warn
  | error
  deriving DecidableEq, Repr

def Level.word : Level → String
  | .debug => "DEBUG"
  | .info => "INFO"
  | .warn => "WARN"
  | .error => "ERROR"

inductive Source where
  | registry
  | sequence
  | flow
  | parallel
  | barrier
  | leaf
  | tween
  | config
  deriving DecidableEq, Repr

def Source.word : Source → String
  | .registry => "orchestrator"
  | .sequence => "sequence"
  | .flow => "flow"
  | .parallel => "parallel"
  | .barrier => "barrier"
  | .leaf => "leaf"
  | .tween => "tween"
  | .config => "config"

inductive Notice where
  | registered (name : String) (steps : Nat)
  | unknown (name : String)
  | removed (name : String)
  | restored (name : String) (index : Nat)
  | alreadyRunning (name : String)
  | refusedByGuard (name : String)
  | started (name : String) (steps : Nat)
  | stopped (name : String) (index : Nat)
  | completed (name : String)
  | alreadyTicking (name : String)
  | entered (source : Source) (owner label : String) (index : Nat)
  | exited (source : Source) (owner label : String) (index : Nat) (status : Status)
  | waitTimedOut (owner : String) (limit : Float32)
  | timeoutHit (owner : String) (seconds : Float32) (cursor : Nat)
  | gaveUp (owner : String) (attempts : UInt32)
  | settledEarly (owner : String) (mode : Quorum) (status : Status) (abandoned : Nat)
  | arrived (owner barrier : String) (count expected : UInt32)
  | stillWaiting (owner barrier : String) (waited : Float32) (count expected : UInt32)
  | notAccepted (owner system action : String)
  | componentMissing (owner component : String) (entity : EntityId)
  | startFailed (owner target : String) (why : Refusal)
  | targetMissing (owner tween : String) (entity : EntityId)
  | notWritable (owner tween : String) (entity : EntityId)
  | settingsLoaded (path : String)

namespace Notice

def level : Notice → Level
  | .registered .. => .debug
  | .unknown .. => .warn
  | .removed .. => .info
  | .restored .. => .info
  | .alreadyRunning .. => .debug
  | .refusedByGuard .. => .warn
  | .started .. => .info
  | .stopped .. => .info
  | .completed .. => .info
  | .alreadyTicking .. => .warn
  | .entered .. => .debug
  | .exited .. => .debug
  | .waitTimedOut .. => .debug
  | .timeoutHit .. => .debug
  | .gaveUp .. => .debug
  | .settledEarly .. => .debug
  | .arrived .. => .debug
  | .stillWaiting .. => .warn
  | .notAccepted .. => .warn
  | .componentMissing .. => .warn
  | .startFailed .. => .error
  | .targetMissing .. => .warn
  | .notWritable .. => .warn
  | .settingsLoaded .. => .debug

def source : Notice → Source
  | .registered .. | .unknown .. | .removed .. | .restored .. => .registry
  | .alreadyRunning .. | .refusedByGuard .. | .started .. | .stopped .. | .completed ..
  | .alreadyTicking .. => .sequence
  | .entered source .. => source
  | .exited source .. => source
  | .waitTimedOut .. | .timeoutHit .. | .gaveUp .. => .flow
  | .settledEarly .. => .parallel
  | .arrived .. | .stillWaiting .. => .barrier
  | .notAccepted .. | .componentMissing .. | .startFailed .. => .leaf
  | .targetMissing .. | .notWritable .. => .tween
  | .settingsLoaded .. => .config

private def number (n : Nat) : String := toString n

private def of (owner : String) (what : String) : String := "Sequence '" ++ owner ++ "'" ++ what

private def entity (id : EntityId) : String := "EntityId(" ++ id.label ++ ")"

def text : Notice → String
  | .registered name steps =>
    "Registered sequence '" ++ name ++ "' (" ++ number steps ++ " steps)"
  | .unknown name => "Unknown sequence '" ++ name ++ "'"
  | .removed name => "Removed sequence '" ++ name ++ "'"
  | .restored name index => "Restored sequence '" ++ name ++ "' at step " ++ number index
  | .alreadyRunning name => of name " is already running"
  | .refusedByGuard name => of name " refused by its guard"
  | .started name steps => "Started sequence '" ++ name ++ "' (" ++ number steps ++ " steps)"
  | .stopped name index => "Stopped sequence '" ++ name ++ "' at step " ++ number index
  | .completed name => "Completed sequence '" ++ name ++ "'"
  | .alreadyTicking name => of name " ticked while already ticking; skipped"
  | .entered _ owner label index => of owner (": enter " ++ label ++ " [" ++ number index ++ "]")
  | .exited _ owner label index status =>
    of owner (": exit " ++ label ++ " [" ++ number index ++ "] " ++ status.word)
  | .waitTimedOut owner limit =>
    of owner (": wait-until timed out after " ++ Decimal.withPlaces 2 limit ++ "s")
  | .timeoutHit owner seconds cursor =>
    of owner (": timeout of " ++ Decimal.withPlaces 2 seconds ++ "s hit at child " ++
      number cursor)
  | .gaveUp owner attempts =>
    of owner (": retry gave up after " ++ number attempts.toNat ++ " attempt(s)")
  | .settledEarly owner mode status abandoned =>
    of owner (": " ++ mode.label ++ " settled " ++ status.word ++ ", abandoning " ++
      number abandoned ++ " running child(ren)")
  | .arrived owner barrier count expected =>
    of owner (" arrived at barrier '" ++ barrier ++ "' (" ++ number count.toNat ++ "/" ++
      number expected.toNat ++ ")")
  | .stillWaiting owner barrier waited count expected =>
    of owner (" has waited " ++ Decimal.withPlaces 1 waited ++ "s at barrier '" ++ barrier ++
      "' (" ++ number count.toNat ++ "/" ++ number expected.toNat ++ " arrivals)")
  | .notAccepted owner system action =>
    of owner (": system '" ++ system ++ "' did not accept '" ++ action ++ "'")
  | .componentMissing owner component id =>
    of owner (": component '" ++ component ++ "' not found on " ++ entity id)
  | .startFailed owner target why =>
    of owner (" failed to start '" ++ target ++ "': " ++ why.message)
  | .targetMissing owner tween id => of owner (": " ++ tween ++ " target " ++ entity id ++
      " not found")
  | .notWritable owner tween id =>
    of owner (": " ++ tween ++ " could not write transform of " ++ entity id)
  | .settingsLoaded path => "Loaded orchestrator config from " ++ path

end Notice

end Sequencer
