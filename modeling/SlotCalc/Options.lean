import SlotCalc.Files
import SlotCalc.Options.Argument

namespace SlotCalc

/-- The value of an option. `--` is no value, also not in `--config=--`: it is dropped, and the
option is given, but empty. -/
inductive Setting (α : Type)
  | absent
  | empty
  | given (value : α)
  deriving DecidableEq, Repr

structure Options where
  config : Setting Path := .absent
  maxSlots : Setting Int := .absent
  updatePrevious : Bool := false
  quiet : Bool := false
  logLevel : Setting Level := .absent
  deriving DecidableEq, Repr

namespace Options

inductive Halt
  | help
  | version
  | problem (e : Problem)
  deriving DecidableEq, Repr

/-- The blanks that may stand around an integer: all but the information separators. -/
def isMargin (c : Char) : Bool := Text.isBlank c && !(0x1c ≤ c.toNat && c.toNat ≤ 0x1f)

def unsigned? (text : List Char) : Option Nat :=
  if (Numeral.digitRun text).1.length ≤ 4300 then Numeral.natural? text else none

/-- A decimal integer with an optional sign and blanks around it, of at most 4300 digits. -/
def integer? (text : String) : Option Int :=
  let trimmed := (text.toList.dropWhile isMargin).reverse.dropWhile isMargin |>.reverse
  match trimmed with
  | '+' :: digits => (unsigned? digits).map (↑·)
  | '-' :: digits => (unsigned? digits).map (-↑·)
  | digits => (unsigned? digits).map (↑·)

def raise (o : Options) : Switch → Except Halt Options
  | .help => .error .help
  | .version => .error .version
  | .updatePrevious => .ok { o with updatePrevious := true }
  | .quiet => .ok { o with quiet := true }
  | .config | .maxSlots | .logLevel => .ok o

def setting (read : String → Except Problem α) (value : String) : Except Halt (Setting α) :=
  if value = "--" then .ok .empty
  else
    match read value with
    | .ok a => .ok (.given a)
    | .error e => .error (.problem e)

def number (option : Switch) (value : String) : Except Problem Int :=
  match integer? value with
  | some n => .ok n
  | none => .error (.notAnInteger option value)

def level (option : Switch) (value : String) : Except Problem Level :=
  match Level.ofName? value with
  | some level => .ok level
  | none => .error (.notALevel option value)

def assign (o : Options) (option : Switch) (value : String) : Except Halt Options :=
  match option with
  | .config => (setting (.ok ∘ Path.ofString) value).map fun v => { o with config := v }
  | .maxSlots => (setting (number option) value).map fun v => { o with maxSlots := v }
  | .logLevel => (setting (level option) value).map fun v => { o with logLevel := v }
  | .help | .version | .updatePrevious | .quiet => .ok o

/-- The short options that are joined to the first one. -/
def joined (first : Switch) : List Char → Except Problem (List Switch)
  | [] => .ok [first]
  | c :: more =>
    match Switch.ofLetter? c with
    | none => .error (.valueIgnored first (String.ofList (c :: more)))
    | some next => (joined next more).map (first :: ·)

/-- The options that an argument without a value of its own stands for. They take effect together or
not at all: `-hx` is refused for its `x`, and no help is shown. -/
def switches (option : Switch) : (joinable : Bool) → Option String → Except Problem (List Switch)
  | _, none => .ok [option]
  | true, some value =>
    if value = "" then .error (.valueIgnored option value) else joined option value.toList
  | false, some value => .error (.valueIgnored option value)

def raiseAll (o : Options) (option : Switch) (joinable : Bool) (value : Option String) :
    Except Halt Options :=
  match switches option joinable value with
  | .error e => .error (.problem e)
  | .ok options => options.foldlM raise o

/-- Reads arguments in turn, `extras` being those so far that are no part of an option. -/
def follow (o : Options) (extras : List String) : List Argument → Except Halt Options
  | [] => if extras = [] then .ok o else .error (.problem (.unrecognized extras))
  | .plain text :: more => follow o (extras ++ [text]) more
  | .unknown text :: more => follow o (extras ++ [text]) more
  | .separator :: more => follow o (extras ++ ["--"]) more
  | .short option value :: more => do follow (← o.raiseAll option true value) extras more
  | .long option value :: more =>
    if option.takesValue then
      match value, more with
      | some value, more => do follow (← o.assign option value) extras more
      | none, .plain value :: more => do follow (← o.assign option value) extras more
      | none, _ => .error (.problem (.valueExpected option))
    else do follow (← o.raiseAll option false value) extras more

def ofArguments (arguments : List String) : Except Halt Options :=
  match Argument.ofTexts arguments with
  | .error e => .error (.problem e)
  | .ok arguments => follow {} [] arguments

end Options

end SlotCalc
