import Sequencer.Board
import Sequencer.Bookmark
import Sequencer.Command
import Sequencer.Condition
import Sequencer.Conductor.Frame
import Sequencer.Conductor.Lifecycle
import Sequencer.Decimal.Binary
import Sequencer.Decimal.Places
import Sequencer.Decimal.Shortest
import Sequencer.Event
import Sequencer.Held
import Sequencer.Journal
import Sequencer.Main
import Sequencer.Motion
import Sequencer.Notice
import Sequencer.Play
import Sequencer.Play.Composite
import Sequencer.Play.Simple
import Sequencer.Play.Poll
import Sequencer.Play.Step
import Sequencer.Play.Tween
import Sequencer.Progress
import Sequencer.Reply
import Sequencer.Scene
import Sequencer.Sequence
import Sequencer.Session
import Sequencer.Settings
import Sequencer.Showcase
import Sequencer.Stage
import Sequencer.Status
import Sequencer.Step
import Sequencer.Table
import Sequencer.Text.Blank
import Sequencer.Text.Escape
import Sequencer.Text.Identifier
import Sequencer.Text.Name
import Sequencer.Text.Notation
import Sequencer.Text.Number
import Sequencer.Text.Printable
import Sequencer.Text.Quoted
import Sequencer.Text.Ranges
import Sequencer.Text.Reader
import Sequencer.Proofs.Stage
import Sequencer.Proofs.Course
import Sequencer.Proofs.Course.Acts
import Sequencer.Proofs.Course.Lifecycle
import Sequencer.Proofs.Course.Steps
import Sequencer.Proofs.Course.Session
import Sequencer.Proofs.Lasting
import Sequencer.Proofs.Record
import Sequencer.Proofs.Roster
import Sequencer.Proofs.ActiveList
import Sequencer.Proofs.Sweep
import Sequencer.Proofs.Course.Drive
import Sequencer.Proofs.Cursor
import Sequencer.Proofs.Entering.Agree
import Sequencer.Proofs.Entering.Keeps
import Sequencer.Proofs.Entering.Pairs
import Sequencer.Proofs.Entering
import Sequencer.Proofs.Activation.Phase
import Sequencer.Proofs.Activation.Live
import Sequencer.Proofs.Activation.Meets
import Sequencer.Proofs.Activation.Calls
import Sequencer.Proofs.Activation.Composite
import Sequencer.Proofs.Activation.Steps
import Sequencer.Proofs.Activation
import Sequencer.Proofs.Timing.Spans
import Sequencer.Proofs.Timing.Yields
import Sequencer.Proofs.Timing.Past
import Sequencer.Proofs.Timing.Composite
import Sequencer.Proofs.Timing.Steps
import Sequencer.Proofs.Timing
import Sequencer.Proofs.Ledger
import Sequencer.Proofs.Ledger.Acts
import Sequencer.Proofs.Ledger.Steps
import Sequencer.Proofs.Ledger.Session
import Sequencer.Proofs.Rendezvous
import Sequencer.Proofs.Turns.Order
import Sequencer.Proofs.Turns.Driven
import Sequencer.Proofs.Turns
import Sequencer.Proofs.Panic
import Sequencer.Proofs.Pause.Flag
import Sequencer.Proofs.Restore.Veil
import Sequencer.Proofs.Restore.Past
import Sequencer.Proofs.Restore.Turns
import Sequencer.Proofs.Restore
import Sequencer.Proofs.Moments
import Sequencer.Proofs.Callbacks
import Sequencer.Proofs.Turns.Nested
import Sequencer.Proofs.LeftAlone
import Sequencer.Proofs.Likeness
import Sequencer.Proofs.Likeness.Steps
import Sequencer.Proofs.Moments.Runners
import Sequencer.Proofs.Likeness.Disguise
import Sequencer.Proofs.Removal.Rests
import Sequencer.Proofs.Removal
import Sequencer.Proofs.InStep.Aloof
import Sequencer.Proofs.InStep.Others
import Sequencer.Proofs.InStep.Outcomes
import Sequencer.Proofs.InStep
import Sequencer.Proofs.Pause.PassedBy
import Sequencer.Proofs.Pause.SelfContained
import Sequencer.Proofs.Pause.History
import Sequencer.Proofs.Pause
import Sequencer.Proofs.Choice.Chosen
import Sequencer.Proofs.Choice.Recalls
import Sequencer.Proofs.Choice.Secures
import Sequencer.Proofs.Choice.Steps
import Sequencer.Proofs.Choice
import Sequencer.Proofs.Refusal
import Sequencer.Proofs.Text.Reading
import Sequencer.Proofs.Text.Digits
import Sequencer.Proofs.Text.Quoting
import Sequencer.Proofs.Text.Records
import Sequencer.Proofs.Bookmark
import Sequencer.Proofs.Accord.Akin
import Sequencer.Proofs.Accord
import Sequencer.Proofs.Accord.Steps
import Sequencer.Proofs.Accord.Conductor
import Sequencer.Proofs.Diagnostics.Blind
import Sequencer.Proofs.Diagnostics.Agree
import Sequencer.Proofs.Diagnostics
import Sequencer.Proofs.Unrelated.Apart
import Sequencer.Proofs.Unrelated.Story
import Sequencer.Proofs.Unrelated.Alone
import Sequencer.Proofs.Unrelated.Turns
import Sequencer.Proofs.Unrelated.Hands
import Sequencer.Proofs.Unrelated.Commands
import Sequencer.Proofs.Unrelated
import Sequencer.Proofs.Passes
import Sequencer.Proofs.Passes.Retried
import Sequencer.Proofs.Passes.Bounded
import Sequencer.Proofs.Upkeep
import Sequencer.Proofs.Validators.Attempts
import Sequencer.Proofs.Validators.Deeds
import Sequencer.Proofs.Validators
import Sequencer.Proofs.Text.Delimited
import Sequencer.Proofs.Text.Blanks
import Sequencer.Proofs.Text.Names
import Sequencer.Proofs.Text.Numbers
import Sequencer.Proofs.Text.Literals
import Sequencer.Proofs.Text.Items
import Sequencer.Proofs.Text.Values
import Sequencer.Proofs.Text.Skipping
import Sequencer.Proofs.Text.Documents
import Sequencer.Proofs.Decimal.Bits
import Sequencer.Proofs.Decimal.Nearest
import Sequencer.Proofs.Decimal.Shortest
import Sequencer.Proofs.Decimal.Written
import Sequencer.Proofs.Settings
import Sequencer.Proofs.SideBySide
import Sequencer.Proofs.SideBySide.Mirrored
import Sequencer.Proofs.SideBySide.Unordered
import Sequencer.Proofs.Awaiting
import Sequencer.Proofs.Channels
import Sequencer.Proofs.Channels.Motions
import Sequencer.Proofs.Channels.Together
import Sequencer.Proofs.SceneHistory
import Sequencer.Proofs.Decimal.Exact
import Sequencer.Proofs.Channels.Arrival
import Sequencer.Proofs.Visits
import Sequencer.Proofs.Visits.Steps
import Sequencer.Proofs.Visits.Session
import Sequencer.Proofs.Visits.Orderly
import Sequencer.Proofs.Counters
