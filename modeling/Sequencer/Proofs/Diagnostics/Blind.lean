import Sequencer.Proofs.Accord.Steps

/-!
# Commands that do not look

The settings, and what the sink of the events has kept, can be asked for. A command that asks for
neither, and hands over no code that does, is blind to them.
-/

set_option autoImplicit false

namespace Sequencer

section

variable {κ : Type}

mutual

def Step.commands : Step κ → List κ
  | .call commands => commands
  | .custom onEnter onTick onExit _ => onEnter ++ onTick ++ onExit
  | .choose question yes no => question.code ++ (stepsCommands yes ++ stepsCommands no)
  | .await question _ _ => question.code
  | .bounded _ _ steps => stepsCommands steps
  | .retry _ steps => stepsCommands steps
  | .group steps => stepsCommands steps
  | .parallel _ steps => stepsCommands steps
  | _ => []

def stepsCommands : List (Step κ) → List κ
  | [] => []
  | x :: rest => x.commands ++ stepsCommands rest

end

def Outline.commands (o : Outline κ) : List κ :=
  stepsCommands o.steps ++ o.onStarted.getD [] ++ o.onCompleted.getD [] ++ o.onStopped.getD []

theorem mem_stepsCommands {x : Step κ} {c : κ} {l : List (Step κ)} (hx : x ∈ l)
    (hc : c ∈ x.commands) : c ∈ stepsCommands l := by
  induction l with
  | nil => exact absurd hx List.not_mem_nil
  | cons y rest ih =>
    rcases List.mem_cons.mp hx with rfl | hx
    · exact List.mem_append_left _ hc
    · exact List.mem_append_right _ (ih hx)

end

section

variable {P : Command → Prop} {leaf : Step Command → Prop} 
  {asked : Question Command → Prop}

mutual

/-- What holds of a step by the code in it holds of every leaf of a tree. -/
theorem Step.each_of_commands (hl : ∀ x : Step Command, (∀ c ∈ x.commands, P c) → leaf x)
    (ha : ∀ q : Question Command, (∀ c ∈ q.code, P c) → asked q) :
    (x : Step Command) → (∀ c ∈ x.commands, P c) → x.Each leaf asked
  | .choose question yes no, h => by
    have hlists := fun c hc => h c (List.mem_append_right _ hc)
    exact ⟨ha question fun c hc => h c (List.mem_append_left _ hc),
      stepsEach_of_commands hl ha yes fun c hc => hlists c (List.mem_append_left _ hc),
      stepsEach_of_commands hl ha no fun c hc => hlists c (List.mem_append_right _ hc)⟩
  | .await question _ _, h => ha question h
  | .bounded _ _ steps, h => stepsEach_of_commands hl ha steps h
  | .retry _ steps, h => stepsEach_of_commands hl ha steps h
  | .group steps, h => stepsEach_of_commands hl ha steps h
  | .parallel _ steps, h => stepsEach_of_commands hl ha steps h
  | .wait _, h => hl _ h
  | .frames _, h => hl _ h
  | .publish _, h => hl _ h
  | .invoke _ _, h => hl _ h
  | .component _ _ _, h => hl _ h
  | .call _, h => hl _ h
  | .startSequence _, h => hl _ h
  | .stopSequence _, h => hl _ h
  | .tween _, h => hl _ h
  | .barrier _ _, h => hl _ h
  | .probe _ _, h => hl _ h
  | .custom _ _ _ _, h => hl _ h

theorem stepsEach_of_commands (hl : ∀ x : Step Command, (∀ c ∈ x.commands, P c) → leaf x)
    (ha : ∀ q : Question Command, (∀ c ∈ q.code, P c) → asked q) :
    (l : List (Step Command)) → (∀ c ∈ stepsCommands l, P c) → stepsEach leaf asked l
  | [], _ => trivial
  | x :: rest, h =>
    ⟨Step.each_of_commands hl ha x fun c hc => h c (List.mem_append_left _ hc),
      stepsEach_of_commands hl ha rest fun c hc => h c (List.mem_append_right _ hc)⟩

end

end

namespace Command

def looks : Command → Bool
  | .ask .settings => true
  | .ask .events => true
  | .edit .takeEvents => true
  | _ => false

def closures : Command → List Command
  | .register outline => outline.commands
  | .holdStep _ step => step.commands
  | .holdTrack _ steps _ => stepsCommands steps
  | .holdSequence _ outline => outline.commands
  | _ => []

/-- Does not look, and hands over no code that does. -/
inductive Blind : Command → Prop
  | intro {c : Command} : c.looks = false → (∀ d ∈ c.closures, Blind d) → Blind c

theorem Blind.looks {c : Command} (h : c.Blind) : c.looks = false := by
  cases h
  assumption

theorem Blind.closures {c : Command} (h : c.Blind) : ∀ d ∈ c.closures, d.Blind := by
  cases h
  assumption

end Command

def Casting.blind : Casting where
  named _ := True
  step x := ∀ c ∈ x.commands, c.Blind
  condition _ := True
  code l := ∀ c ∈ l, c.Blind

theorem Outline.fits_blind {o : Outline Command} (h : ∀ c ∈ o.commands, c.Blind) :
    o.Fits .blind where
  named := trivial
  steps x hx c hc := h c (by simp [commands, mem_stepsCommands hx hc])
  guards _ _ := trivial
  validators _ _ := trivial
  started l hl c hc := h c (by simp [commands, Option.mem_def.mp hl, hc])
  completed l hl c hc := h c (by simp [commands, Option.mem_def.mp hl, hc])
  stopped l hl c hc := h c (by simp [commands, Option.mem_def.mp hl, hc])

end Sequencer
