import SlotCalc.Config
import SlotCalc.Input
import SlotCalc.Options
import SlotCalc.Session

namespace SlotCalc

namespace Usage

def programName : String := "memcalc"

def versionText : String := programName ++ " 0.1.0\n"

def summary : String :=
  "usage: memcalc [-h] [--version] [--config CONFIG] [--max-slots MAX_SLOTS]\n" ++
  "               [--update-previous] [-q]\n" ++
  "               [--log-level \x7bDEBUG,INFO,WARNING,ERROR\x7d]\n"

def helpText : String :=
  summary ++ "\n" ++
  "line calculator with named memory slots\n" ++ "\n" ++
  "options:\n" ++
  "  -h, --help            show this help message and exit\n" ++
  "  --version             show program's version number and exit\n" ++
  "  --config CONFIG       TOML file with a [memcalc] table.\n" ++
  "  --max-slots MAX_SLOTS\n" ++
  "                        Limit the number of memory slots.\n" ++
  "  --update-previous     Make mem<name>+ / mem<name>- results the previous\n" ++
  "                        result.\n" ++
  "  -q, --quiet           Don't print the startup banner.\n" ++
  "  --log-level \x7bDEBUG,INFO,WARNING,ERROR\x7d\n" ++
  "                        Log level for diagnostics written to stderr.\n"

def complaint (message : String) : String :=
  summary ++ programName ++ ": error: " ++ message ++ "\n"

end Usage

namespace Command

structure Run where
  status : Nat
  stdout : String
  stderr : String
  /-- The prompts shown on a terminal, which are no part of `stdout`. -/
  prompts : List String
  deriving DecidableEq, Repr

def Run.early (status : Nat) (stdout stderr : String) : Run :=
  { status, stdout, stderr, prompts := [] }

inductive ConfigError
  | file (e : Config.LoadError)
  | maxSlotsNotPositive (n : Int)
  deriving DecidableEq, Repr

def ConfigError.message : ConfigError → String
  | file e => e.message
  | maxSlotsNotPositive n => "--max-slots must be positive, got " ++ toString n

def fileConfig (read : Path → Except ReadFailure ByteArray) (o : Options) :
    Except (Failure ConfigError) Config :=
  match o.config with
  | .absent => .ok {}
  | .empty => .error (.broken .emptyPath)
  | .given path => (Config.load read path).mapError (.map .file)

def slotLimit (base : Config) (o : Options) : Except (Failure ConfigError) (Option Int) :=
  match o.maxSlots with
  | .absent => .ok base.maxSlots
  | .empty => .error (.broken .emptyNumber)
  | .given n => if n < 1 then .error (.reported (.maxSlotsNotPositive n)) else .ok (some n)

/-- The settings of the file with those of the options in their place. -/
def resolve (read : Path → Except ReadFailure ByteArray) (o : Options) :
    Except (Failure ConfigError) Config := do
  let base ← fileConfig read o
  return { maxSlots := ← slotLimit base o
           commandsUpdatePrevious := base.commandsUpdatePrevious || o.updatePrevious
           banner := base.banner && !o.quiet
           farewell := base.farewell }

def threshold (o : Options) : Except (Failure ConfigError) Level :=
  match o.logLevel with
  | .absent => .ok .warning
  | .empty => .error (.broken .emptyLevel)
  | .given level => .ok level

/-- How a run begins: it ends at once, breaks down, or a session starts. -/
inductive Start
  | ended (run : Run)
  | broken (cause : Breakdown)
  | session (config : Config) (logLevel : Level)

def Start.ofOptions (read : Path → Except ReadFailure ByteArray) (o : Options) : Start :=
  let settings := do
    let level ← threshold o
    return (← resolve read o, level)
  match settings with
  | .ok (config, level) => .session config level
  | .error (.reported e) => .ended (.early 2 "" (e.message ++ "\n"))
  | .error (.broken cause) => .broken cause

def start (read : Path → Except ReadFailure ByteArray) (arguments : List String) : Start :=
  match Options.ofArguments arguments with
  | .error .help => .ended (.early 0 Usage.helpText "")
  | .error .version => .ended (.early 0 Usage.versionText "")
  | .error (.problem e) => .ended (.early 2 "" (Usage.complaint e.message))
  | .ok o => .ofOptions read o

def prompt : String := "> "

def printed (lines : List String) : String := String.join (lines.map (· ++ "\n"))

/-- The end of the input is reported if it was a failure and the session was still open. -/
def endingEvents (closed : Bool) : Ending → List Event
  | .failed reason => if closed then [] else [.inputFailed reason]
  | .endOfInput | .interrupted => []

/-- Each line is asked for, and so is the end of the input if the session is still open there. -/
def promptCount (t : Session.Transcript) : Source → Nat
  | .terminal _ => t.consumed + if t.closed then 0 else 1
  | .pipe _ => 0

def runSession (config : Config) (logLevel : Level) (input : Input) : Run :=
  let t := Session.run config input.source.lines
  let failure := endingEvents t.closed input.ending
  { status := if failure.isEmpty then 0 else 1
    stdout := printed t.outputs
    stderr := printed (Event.logged logLevel (t.events ++ failure))
    prompts := List.replicate (promptCount t input.source) prompt }

def run (arguments : List String) (files : Files) (input : Input) : Except Breakdown Run :=
  match start files.read arguments with
  | .ended run => .ok run
  | .broken cause => .error cause
  | .session config logLevel => .ok (runSession config logLevel input)

end Command

end SlotCalc
