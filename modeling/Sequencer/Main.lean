import Sequencer.Showcase
import Std.Time

/-!
# The command line

Prints the showcase, with settings from the file named by the first argument if there is one.
Each message carries the time at which it is printed.
-/

set_option autoImplicit false

namespace Sequencer

def faultOf : IO.Error → FileFault
  | .noFileOrDirectory .. => .missing
  | .inappropriateType _ 21 _ => .isDirectory
  | .inappropriateType .. => .notDirectory
  | .permissionDenied .. => .system 13 "Permission denied"
  | _ => .system 5 "Input/output error"

def lookUp (path : String) : IO (Except FileFault ByteArray) := do
  try
    return .ok (← IO.FS.readBinFile path)
  catch e => return .error (faultOf e)

def stamp : IO String := do
  let now ← Std.Time.Timestamp.now
  let date := Std.Time.DateTime.ofTimestamp now Std.Time.TimeZone.ZoneRules.UTC
  return date.format "uuuu-MM-dd'T'HH:mm:ss.SSSSSS" ++ "Z "

def printMessage (m : Showcase.Message) : IO Unit := do
  let indent := String.ofList (List.replicate (5 - m.level.word.length) ' ')
  IO.println ((← stamp) ++ indent ++ m.render)

end Sequencer

def main (args : List String) : IO UInt32 := do
  let file ← match args with
    | [] => pure none
    | path :: _ => pure (some (path, ← Sequencer.lookUp path))
  let (messages, code) := Sequencer.Showcase.present file
  for m in messages do
    Sequencer.printMessage m
  return code
