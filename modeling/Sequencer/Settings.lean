import Sequencer.Decimal.Shortest
import Sequencer.Text.Notation

/-!
# Settings

What a host may set, as a value, as text, and as a file. A field that the text leaves out keeps
its default.
-/

set_option autoImplicit false

namespace Sequencer

structure Settings where
  /-- Report every step that is entered or exited. -/
  traceSteps : Bool := false
  /-- Warn once when a barrier has kept a sequence for more than this many seconds. -/
  barrierWarnAfter : Option Float32 := some 10

inductive FileFault where
  | system (code : Nat) (reason : String)
  | notText

namespace FileFault

def missing : FileFault := .system 2 "No such file or directory"

def notDirectory : FileFault := .system 20 "Not a directory"

def isDirectory : FileFault := .system 21 "Is a directory"

def message : FileFault → String
  | .system code reason => reason ++ " (os error " ++ toString code ++ ")"
  | .notText => "stream did not contain valid UTF-8"

end FileFault

inductive SettingsError where
  | file (fault : FileFault)
  | malformed

def SettingsError.message : SettingsError → String
  | .file fault => "IO error: " ++ fault.message
  | .malformed => "Parse error"

namespace Settings

def typeName : List Char := "OrchestratorConfig".toList

def traceStepsName : List Char := "trace_steps".toList

def barrierWarnAfterName : List Char := "barrier_warn_after".toList

def renderBool (b : Bool) : List Char := if b then "true".toList else "false".toList

def renderOption : Option Float32 → List Char
  | none => "None".toList
  | some x => "Some(".toList ++ Decimal.text x ++ [')']

def renderField (name value : List Char) : List Char :=
  "    ".toList ++ name ++ [':', ' '] ++ value ++ [',', '\n']

def renderChars (s : Settings) : List Char :=
  typeName ++ ['(', '\n'] ++ renderField traceStepsName (renderBool s.traceSteps) ++
    renderField barrierWarnAfterName (renderOption s.barrierWarnAfter) ++ [')']

def render (s : Settings) : String := String.ofList s.renderChars

structure Draft where
  traceSteps : Option Bool := none
  barrierWarnAfter : Option (Option Float32) := none

open Text in
def field (e : Extensions) (key : List Char) (p : Draft) : Option (Reader Draft) :=
  if key = traceStepsName then
    some (if p.traceSteps.isSome then Reader.refuse
      else do return { p with traceSteps := some (← Reader.bool) })
  else if key = barrierWarnAfterName then
    some (if p.barrierWarnAfter.isSome then Reader.refuse
      else do return { p with barrierWarnAfter := some (← Reader.option e (Reader.float false)) })
  else none

def Draft.complete (p : Draft) : Settings :=
  { traceSteps := p.traceSteps.getD ({} : Settings).traceSteps
    barrierWarnAfter := p.barrierWarnAfter.getD ({} : Settings).barrierWarnAfter }

def ofChars? (text : List Char) : Option Settings :=
  (Text.readRecord typeName {} field text).map Draft.complete

def parse (text : String) : Except SettingsError Settings :=
  match ofChars? text.toList with
  | some s => .ok s
  | none => .error .malformed

def ofBytes (bytes : ByteArray) : Except SettingsError Settings :=
  match String.fromUTF8? bytes with
  | some text => parse text
  | none => .error (.file .notText)

def ofFile (contents : Except FileFault ByteArray) : Except SettingsError Settings :=
  match contents with
  | .ok bytes => ofBytes bytes
  | .error fault => .error (.file fault)

end Settings

end Sequencer
