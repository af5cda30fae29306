import Sequencer.Session

/-!
# A showcase

A short scripted scene at sixty frames a second. A director moves the camera, starts two actors,
meets them at a barrier, repeats a bounded wait until it holds, and bounds another that never
would. What is shown of it is its log.
-/

set_option autoImplicit false

namespace Sequencer.Showcase

def version : String := "0.1.0"

def frameTime : Float32 := 1 / 60

def maxFrames : Nat := 60 * 20

def camera : String := "camera"

def hero : String := "hero"

def rival : String := "rival"

def attempts : String := "ui_attempts"

def director : Outline Command :=
  { name := "director"
    guards := [{ test := .hasSystem "audio" }]
    validators := [⟨{ test := .hasEntity camera }, "camera entity missing"⟩]
    onCompleted := some []
    steps :=
      [.component hero "Controller" false,
        .invoke "audio" { action := "play_music" },
        .parallel .all
          [.tween ⟨camera, .position ⟨0, 3, -6⟩, 1.5, .easeInOut⟩,
            .tween ⟨camera, .lookAt ⟨0, 0, 0⟩, 1, .easeOut⟩],
        .startSequence "hero_walk",
        .startSequence "rival_walk",
        .barrier "duel" 3,
        .retry 3
          [.call [.edit (.count attempts 1)],
            .await { test := .counterAtLeast attempts 2 } (some 0.1) .fail],
        .bounded 0.5 .skip [.barrier "never_arrives" 2],
        .publish (.signal "finale"),
        .component hero "Controller" true] }

def heroWalk : Outline Command :=
  { name := "hero_walk"
    steps := [.tween ⟨hero, .position ⟨-1, 0, 0⟩, 2, .linear⟩, .barrier "duel" 3] }

def rivalWalk : Outline Command :=
  { name := "rival_walk"
    steps :=
      [.wait 0.5,
        .tween ⟨rival, .position ⟨1, 0, 0⟩, 1, .easeIn⟩,
        .tween ⟨rival, .scale ⟨1.2, 1.2, 1.2⟩, 0.25, .linear⟩,
        .barrier "duel" 3] }

def opening : List Command :=
  [.edit (.addSystem "audio"),
    .edit (.addSystem "ui"),
    .edit (.spawn camera { position := ⟨0, 2, -10⟩ }),
    .edit (.spawn hero { position := ⟨-4, 0, 0⟩ }),
    .edit (.spawn rival { position := ⟨4, 0, 0⟩ }),
    .edit (.addComponent hero "Controller" true),
    .register director,
    .register heroWalk,
    .register rivalWalk,
    .start "director"]

structure Message where
  level : Level
  target : String
  text : String

def Message.render (m : Message) : String := m.level.word ++ " " ++ m.target ++ ": " ++ m.text

def ofNotice (n : Notice) : Message :=
  ⟨n.level, "ordoplay_orchestrator::" ++ n.source.word, n.text⟩

def message (level : Level) (text : String) : Message :=
  ⟨level, "ordoplay_orchestrator_demo", text⟩

def messageOf : Entry → Option Message
  | .notice n => some (ofNotice n)
  | .notified _ name .completed true => some (message .info ("'" ++ name ++ "' finished"))
  | _ => none

def act (c : Command) (s : Stage) : Reply × List Message × Stage :=
  let r := s.step c
  (r.1, (s.newEntries r.2).filterMap messageOf, r.2)

def actAll : List Command → Stage → List Message × Stage
  | [], s => ([], s)
  | c :: rest, s =>
    let r := act c s
    let later := actAll rest r.2.2
    (r.2.1 ++ later.1, later.2)

def frames : Nat → Nat → Float → Stage → List Message × Nat × Stage
  | 0, frame, _, s => ([], frame, s)
  | n + 1, frame, elapsed, s =>
    if s.active.isEmpty then ([], frame, s)
    else
      let frame := frame + 1
      let elapsed := elapsed + frameTime.toFloat
      let r := actAll [.edit (.engine frame elapsed 1), .tick frameTime none] s
      let taken := act (.edit .takeEvents) r.2
      let events := match taken.1 with
        | .events l => l
        | _ => []
      let heard := events.map fun e =>
        message .info ("Frame " ++ toString frame ++ ": event '" ++ e.name ++ "'")
      let later := frames n frame elapsed taken.2.2
      (r.1 ++ heard ++ later.1, later.2)

def positionText (v : Vec3) : String :=
  "[" ++ ", ".intercalate (v.toList.map fun x => String.ofList (Decimal.text x)) ++ "]"

def closing (frame : Nat) (s : Stage) : List Message :=
  let place := (s.host.scene.pose? (s.host.resolve camera)).map fun t =>
    message .info ("Camera ended at " ++ positionText t.position)
  let calls := (s.host.scene.received "audio").length
  place.toList ++
    [message .info ("Ran " ++ toString frame ++ " frame(s), " ++ toString calls ++
      " system call(s) to audio\n" ++ s.summary)]

def performance (settings : Settings) : List Message :=
  let start := actAll opening { settings }
  let run := frames maxFrames 0 0 start.2
  start.1 ++ run.1 ++ closing run.2.1 run.2.2

/-- The messages and the exit code, given the path of a settings file, if there is one, and what
is found there. -/
def present (file : Option (String × Except FileFault ByteArray)) : List Message × UInt32 :=
  let hello := message .info ("Starting OrdoPlay Orchestrator Demo v" ++ version)
  match file with
  | none => (hello :: performance {}, 0)
  | some (path, contents) =>
    match Settings.ofFile contents with
    | .ok settings =>
      (hello :: ofNotice (.settingsLoaded path) :: performance settings, 0)
    | .error why =>
      ([hello, message .error ("Failed to load config " ++ path ++ ": " ++ why.message)], 1)

end Sequencer.Showcase
