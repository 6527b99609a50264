import SlotCalc.Command

namespace SlotCalc.Main

open Command Session

def readFile (path : Path) : IO (Except ReadFailure ByteArray) := do
  try
    return .ok (← IO.FS.readBinFile path.toString)
  catch
    | .noFileOrDirectory .. => return .error .missing
    | _ => return .error .unreadable

def configContent (arguments : List String) : IO (Except ReadFailure ByteArray) :=
  match Options.ofArguments arguments with
  | .ok { config := .given path, .. } => readFile path
  | _ => return .error .missing

def log (threshold : Level) (events : List Event) : IO Unit := do
  (← IO.getStderr).putStr (printed (Event.logged threshold events))

def say (outputs : List String) : IO Unit := do
  let stdout ← IO.getStdout
  stdout.putStr (printed outputs)
  stdout.flush

/-- The next lines without their ends, or how the input ended. A terminal gives one line, a pipe
all lines up to the next line feed. -/
def nextLines (isTerminal : Bool) : IO (Except Ending (List String)) := do
  let stdout ← IO.getStdout
  if isTerminal then
    stdout.putStr prompt
    stdout.flush
  try
    let text ← (← IO.getStdin).getLine
    if text.isEmpty then return .error .endOfInput
    else if isTerminal then return .ok [String.ofList (text.toList.takeWhile (· ≠ '\n'))]
    else return .ok (Source.pipe text).lines
  catch e => return .error (.failed e.toString)

partial def converse (config : Config) (threshold : Level) (isTerminal : Bool) (state : State) :
    IO UInt32 := do
  match ← nextLines isTerminal with
  | .error ending =>
    let events := endingEvents false ending
    log threshold events
    return if events.isEmpty then 0 else 1
  | .ok lines =>
    let t := follow config state lines
    log threshold t.events
    say t.outputs
    if t.closed then return 0 else converse config threshold isTerminal t.final

def session (config : Config) (threshold : Level) : IO UInt32 := do
  say (run config []).outputs
  converse config threshold (← (← IO.getStdin).isTty) (.initial config)

end SlotCalc.Main

open SlotCalc in
def main (arguments : List String) : IO UInt32 := do
  let content ← Main.configContent arguments
  match Command.start (fun _ => content) arguments with
  | .ended run =>
    (← IO.getStdout).putStr run.stdout
    (← IO.getStderr).putStr run.stderr
    return run.status.toUInt32
  | .broken cause =>
    (← IO.getStderr).putStr (cause.message ++ "\n")
    return 1
  | .session config threshold => Main.session config threshold
