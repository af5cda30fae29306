import Sequencer.Play.Simple

/-!
# Steps with children

How a list of steps, a choice, a bounded list, a retried list and a parallel step answer in a
frame, given how their children do. Children of a list are entered when the cursor comes to
them; children of a parallel step are all entered with it.
-/

set_option autoImplicit false

namespace Sequencer

variable {π ρ : Type}

namespace Track

def rewound (t : Track π) : Track π := { t with cursor := 0, entered := false }

def onChildren {α : Type} (play : Play π α) : Play (Track π) α :=
  Play.part (·.children) (fun children t => { t with children }) play

/-- One frame of the child at the cursor. When it settles the cursor moves on, and the list
settles with its last child or, if failures propagate, with the first one that fails. `drive`
drives the child of an index, entering it first if told so. -/
def tick (length : Nat) (onFailure : OnFailure) (drive : Nat → Bool → Play π Status) :
    Play (Track π) Status := do
  let t ← Play.read
  if t.cursor < length then
    Play.change fun t => { t with entered := true }
    let status ← onChildren (drive t.cursor !t.entered)
    if status.isRunning then return .running
    else
      Play.change fun t => { t with entered := false, cursor := t.cursor + 1 }
      if status.isFailure && onFailure = .propagate then return .failed
      else return if t.cursor + 1 < length then .running else .succeeded
  else return .succeeded

def cancel (length : Nat) (exit : Nat → Play π Unit) : Play (Track π) Unit := do
  let t ← Play.read
  if t.entered && t.cursor < length then onChildren (exit t.cursor)
  Play.change fun t => { t with entered := false, cursor := length }

end Track

namespace ChoiceProgress

def onYes {α : Type} (play : Play (Track π) α) : Play (ChoiceProgress π ρ) α :=
  Play.part (·.yes) (fun yes p => { p with yes }) play

def onNo {α : Type} (play : Play (Track ρ) α) : Play (ChoiceProgress π ρ) α :=
  Play.part (·.no) (fun no p => { p with no }) play

/-- Asks, and rewinds the list that was chosen. A question that panics leaves the choice as it
was. -/
def enter (run : Runner) (cue : Cue) (question : Question Command) :
    Play (ChoiceProgress π ρ) Unit := do
  Play.change fun p => { p with polls := p.polls + 1 }
  let answer ← Play.onStage (inquire run (.step cue.site) cue.owner (← Play.read).polls question)
  if answer then Play.change fun p => { p with second := false, yes := p.yes.rewound }
  else Play.change fun p => { p with second := true, no := p.no.rewound }

def tick (yes : Play (Track π) Status) (no : Play (Track ρ) Status) :
    Play (ChoiceProgress π ρ) Status := do
  if (← Play.read).second then onNo no else onYes yes

end ChoiceProgress

namespace BoundedProgress

def onBody {α : Type} (play : Play (Track π) α) : Play (BoundedProgress π) α :=
  Play.part (·.body) (fun body p => { p with body }) play

def enter : Play (BoundedProgress π) Unit :=
  Play.change fun p => { p with elapsed := 0, body := p.body.rewound }

/-- In the frame in which time runs over the bound the list is cancelled and not driven. -/
def tick (owner : String) (seconds : Float32) (policy : Expiry) (dt : Float32)
    (body : Play (Track π) Status) (cancel : Play (Track π) Unit) :
    Play (BoundedProgress π) Status := do
  Play.change fun p => { p with elapsed := p.elapsed + dt }
  let p ← Play.read
  if p.elapsed > seconds then
    Play.say (.timeoutHit owner seconds p.body.cursor)
    onBody cancel
    return policy.outcome
  else onBody body

end BoundedProgress

namespace RetryProgress

def onBody {α : Type} (play : Play (Track π) α) : Play (RetryProgress π) α :=
  Play.part (·.body) (fun body p => { p with body }) play

def enter : Play (RetryProgress π) Unit :=
  Play.change fun p => { p with failures := 0, body := p.body.rewound }

def budget (attempts : UInt32) : UInt32 := if attempts = 0 then 1 else attempts

/-- A failed pass is counted, and the next one begins in the next frame while attempts are
left. -/
def tick (owner : String) (attempts : UInt32) (body : Play (Track π) Status) :
    Play (RetryProgress π) Status := do
  match ← onBody body with
  | .failed =>
    Play.change fun p => { p with failures := p.failures + 1 }
    let failures := (← Play.read).failures
    if failures ≥ budget attempts then
      Play.say (.gaveUp owner failures)
      return .failed
    else
      Play.change fun p => { p with body := p.body.rewound }
      return .running
  | status => return status

end RetryProgress

namespace Lane

def onChild {α : Type} (play : Play π α) : Play (Lane π) α :=
  Play.part (·.child) (fun child l => { l with child }) play

def enter (cue : Cue) (body : Play π Unit) : Play (Lane π) Unit := do
  Play.change fun l => { l with settled := none }
  onChild (cue.enter body)

/-- One frame of a child that has not settled, with the status it settles with in it. -/
def tick (cue : Cue) (dt : Float32) (body : Play π Status) (exit : Play π Unit) :
    Play (Lane π) (Option Status) := do
  if (← Play.read).settled.isSome then return none
  else
    let status ← onChild (cue.tick dt body)
    if status.isRunning then return none
    else
      onChild (cue.exit exit)
      Play.change fun l => { l with settled := some status }
      return some status

end Lane

def Quorum.verdict (mode : Quorum) (settled : List Status) (pending : Nat) :
    Option Status :=
  match mode with
  | .all =>
    if settled.any (·.isFailure) then some .failed
    else if pending = 0 then some .succeeded
    else none
  | .any =>
    if settled.any (·.isSuccess) then some .succeeded
    else if pending = 0 then some .failed
    else none

/-- Answers for a parallel step; children that are not done when it settles are left as they
are. -/
def Quorum.conclude (mode : Quorum) (owner : String) (settled : List Status)
    (pending : Nat) : Play π Status := do
  match mode.verdict settled pending with
  | some status =>
    if pending > 0 then Play.say (.settledEarly owner mode status pending)
    return status
  | none => return .running

end Sequencer
