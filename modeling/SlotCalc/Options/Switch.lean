import SlotCalc.Session.Event

namespace SlotCalc

inductive Switch
  | help
  | version
  | config
  | maxSlots
  | updatePrevious
  | quiet
  | logLevel
  deriving DecidableEq, Repr

namespace Switch

def all : List Switch := [help, version, config, maxSlots, updatePrevious, quiet, logLevel]

def long : Switch → String
  | help => "--help"
  | version => "--version"
  | config => "--config"
  | maxSlots => "--max-slots"
  | updatePrevious => "--update-previous"
  | quiet => "--quiet"
  | logLevel => "--log-level"

/-- The letter of the short form. Only options without a value have one. -/
def letter? : Switch → Option Char
  | help => some 'h'
  | quiet => some 'q'
  | _ => none

def takesValue : Switch → Bool
  | config | maxSlots | logLevel => true
  | _ => false

def ofLong? (s : String) : Option Switch := all.find? (·.long = s)

def ofLetter? (c : Char) : Option Switch := all.find? (·.letter? = some c)

def completions (s : List Char) : List Switch := all.filter fun o => s.isPrefixOf o.long.toList

def title (s : Switch) : String :=
  match s.letter? with
  | some c => "-" ++ c.toString ++ "/" ++ s.long
  | none => s.long

end Switch

inductive Options.Problem
  | ambiguous (argument : String) (candidates : List Switch)
  | valueExpected (option : Switch)
  | valueIgnored (option : Switch) (value : String)
  | notAnInteger (option : Switch) (value : String)
  | notALevel (option : Switch) (value : String)
  | unrecognized (arguments : List String)
  deriving DecidableEq, Repr

def Options.Problem.message : Problem → String
  | ambiguous argument candidates =>
    "ambiguous option: " ++ argument ++ " could match " ++
      ", ".intercalate (candidates.map Switch.long)
  | valueExpected option => "argument " ++ option.title ++ ": expected one argument"
  | valueIgnored option value =>
    "argument " ++ option.title ++ ": ignored explicit argument " ++ Text.quoted value
  | notAnInteger option value =>
    "argument " ++ option.title ++ ": invalid int value: " ++ Text.quoted value
  | notALevel option value =>
    "argument " ++ option.title ++ ": invalid choice: " ++ Text.quoted value ++
      " (choose from " ++ ", ".intercalate (Level.all.map fun l => Text.quoted l.name) ++ ")"
  | unrecognized arguments => "unrecognized arguments: " ++ " ".intercalate arguments

end SlotCalc
