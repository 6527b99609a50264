import SlotCalc.Expr

namespace SlotCalc

inductive Answer
  | stored (slot : String) (value : Float)
  | evaluated (line : String) (value : Float)

namespace Answer

def value : Answer → Float
  | stored _ value => value
  | evaluated _ value => value

def display : Answer → String
  | stored slot value => "set memory" ++ slot ++ " equal " ++ Decimal.shown value
  | evaluated line value => line ++ " equal " ++ Decimal.shown value

end Answer

inductive Rejection
  | malformed (e : Malformed)
  | faulty (tokens : List Token) (e : Expr.Fault)
  | full (e : Store.Full)

namespace Rejection

def label : Rejection → String
  | malformed _ => "MalformedNumber"
  | faulty _ e => e.cause.label
  | full _ => "MemoryFullError"

def message : Rejection → String
  | malformed e => e.message
  | faulty tokens e => e.message tokens
  | full e => e.message

end Rejection

inductive Level
  | debug
  | info
  | warning
  | error
  deriving DecidableEq, Repr

namespace Level

def name : Level → String
  | debug => "DEBUG"
  | info => "INFO"
  | warning => "WARNING"
  | error => "ERROR"

def rank : Level → Nat
  | debug => 0
  | info => 1
  | warning => 2
  | error => 3

def all : List Level := [debug, info, warning, error]

def ofName? (name : String) : Option Level := all.find? (·.name = name)

end Level

inductive Event
  /-- A command is followed by pieces that have no effect. -/
  | ignored (count : Nat) (command : String)
  | created (slot : String)
  | changed (slot : String) (delta value : Float)
  | evaluated (line : String) (value : Float)
  | rejected (line : String) (reason : Rejection)
  | inputFailed (reason : String)

namespace Event

def level : Event → Level
  | ignored .. | created .. | changed .. | evaluated .. => .debug
  | rejected .. => .warning
  | inputFailed .. => .error

def source : Event → String
  | created .. => "memcalc.memory"
  | inputFailed .. => "memcalc.repl"
  | _ => "memcalc.dispatcher"

def text : Event → String
  | ignored count command => "Ignoring " ++ toString count ++ " piece(s) after " ++ command
  | created slot => "Created memory slot " ++ Text.quoted slot
  | changed slot delta value =>
    "Memory slot " ++ Text.quoted slot ++ " changed by " ++ Decimal.plain delta ++ " to " ++
      Decimal.plain value
  | evaluated line value => "Evaluated " ++ Text.quoted line ++ " to " ++ Decimal.plain value
  | rejected line reason => "Rejected line " ++ Text.quoted line ++ ": " ++ reason.label
  | inputFailed reason => "Failed reading input: " ++ reason

def logLine (e : Event) : String := e.level.name ++ " " ++ e.source ++ ": " ++ e.text

def logged (threshold : Level) (events : List Event) : List String :=
  (events.filter fun e => threshold.rank ≤ e.level.rank).map logLine

end Event

end SlotCalc
