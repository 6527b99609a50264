import SlotCalc.Config
import SlotCalc.Session.Event

namespace SlotCalc.Session

structure State where
  store : Store
  previous : Float := 0

def State.initial (config : Config) : State := { store := .empty config.maxSlots }

structure Step where
  result : Except Rejection Answer
  state : State
  events : List Event

def Step.refused (state : State) (events : List Event) (line : String) (reason : Rejection) :
    Step :=
  { result := .error reason, state, events := events ++ [.rejected line reason] }

/-- The command that a line begins with. -/
def command? (line : String) : Option Token :=
  (Token.take 1 line).1.head?.filter (·.kind.isCommand)

def delta (command : Token) (previous : Float) : Float :=
  if command.kind = .slotPlus then previous else -previous

def ignoredEvents (line : String) (command : Token) : List Event :=
  let count := (Text.pieces line.toList).length - 1
  if count = 0 then [] else [.ignored count command.lexeme]

/-- Carries out a command. The pieces after it are not read. -/
def runCommand (config : Config) (state : State) (line : String) (command : Token) : Step :=
  let name := command.name
  let change := delta command state.previous
  let ignored := ignoredEvents line command
  match state.store.accumulate name change with
  | .error e => .refused state ignored line (.full e)
  | .ok store =>
    let value := store.get name
    let created := if state.store.contains name then [] else [.created name]
    { result := .ok (.stored name value)
      state := ⟨store, if config.commandsUpdatePrevious then value else state.previous⟩
      events := ignored ++ created ++ [.changed name change value] }

def evaluateLine (state : State) (line : String) : Step :=
  match Token.ofLine line with
  | .error e => .refused state [] line (.malformed e)
  | .ok tokens =>
    match Expr.evaluate state.store tokens with
    | .error e => .refused state [] line (.faulty tokens e)
    | .ok value =>
      { result := .ok (.evaluated line value)
        state := { state with previous := value }
        events := [.evaluated line value] }

def step (config : Config) (state : State) (line : String) : Step :=
  match command? line with
  | some command => runCommand config state line command
  | none => evaluateLine state line

def Step.output (s : Step) (line : String) : String :=
  match s.result with
  | .ok answer => answer.display
  | .error reason => "error: " ++ line ++ "\n" ++ reason.message

def bannerText : String :=
  "Please input calculation formula like 1 + 2, 2 - 1, 3 * 4, 4 / 2"

structure Transcript where
  /-- One output for each line, with the banner and the farewell. -/
  outputs : List String
  events : List Event
  consumed : Nat
  closed : Bool
  final : State

def follow (config : Config) (state : State) : List String → Transcript
  | [] => { outputs := [], events := [], consumed := 0, closed := false, final := state }
  | line :: more =>
    -- A line of blanks does not end the session.
    if line.isEmpty then
      { outputs := [config.farewell], events := [], consumed := 1, closed := true, final := state }
    else
      let s := step config state line
      let later := follow config s.state more
      { later with
        outputs := s.output line :: later.outputs
        events := s.events ++ later.events
        consumed := later.consumed + 1 }

def run (config : Config) (lines : List String) : Transcript :=
  let t := follow config (.initial config) lines
  if config.banner then { t with outputs := bannerText :: t.outputs } else t

end SlotCalc.Session
