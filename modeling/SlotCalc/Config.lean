import SlotCalc.Toml.Sections

namespace SlotCalc

structure Config where
  /-- How many slots there may be; `none` sets no limit. -/
  maxSlots : Option Int := none
  /-- Whether the new value of a slot becomes the previous result. -/
  commandsUpdatePrevious : Bool := false
  banner : Bool := true
  farewell : String := "Bye!"
  deriving DecidableEq, Repr

namespace Config

inductive Problem
  | notATable
  | unknownKeys (keys : List String)
  | notAnInteger (key : String)
  | notPositive (key : String) (value : Int)
  | notABoolean (key : String)
  | notAString (key : String)
  deriving DecidableEq, Repr

def tableName : String := "memcalc"

def fieldName (key : String) : String := tableName ++ "." ++ key

def Problem.message : Problem → String
  | notATable => "Expected [" ++ tableName ++ "] to be a table."
  | unknownKeys keys => "Unknown keys in [" ++ tableName ++ "]: " ++ ", ".intercalate keys
  | notAnInteger key => "Expected " ++ fieldName key ++ " to be an integer."
  | notPositive key value =>
    "Expected " ++ fieldName key ++ " to be positive, got " ++ toString value ++ "."
  | notABoolean key => "Expected " ++ fieldName key ++ " to be a boolean."
  | notAString key => "Expected " ++ fieldName key ++ " to be a string."

inductive Field
  | maxSlots
  | commandsUpdatePrevious
  | banner
  | farewell
  deriving DecidableEq, Repr

namespace Field

def key : Field → String
  | maxSlots => "max_slots"
  | commandsUpdatePrevious => "mutation_updates_previous"
  | banner => "banner"
  | farewell => "farewell"

def all : List Field := [maxSlots, commandsUpdatePrevious, banner, farewell]

def ofKey? (key : String) : Option Field := all.find? (·.key = key)

def positive (f : Field) : Value → Except Problem Int
  | .integer n => if n < 1 then .error (.notPositive f.key n) else .ok n
  | _ => .error (.notAnInteger f.key)

def boolean (f : Field) : Value → Except Problem Bool
  | .boolean b => .ok b
  | _ => .error (.notABoolean f.key)

def text (f : Field) : Value → Except Problem String
  | .text s => .ok s
  | _ => .error (.notAString f.key)

def set (f : Field) (c : Config) (value : Value) : Except Problem Config :=
  match f with
  | maxSlots => (f.positive value).map fun n => { c with maxSlots := some n }
  | commandsUpdatePrevious =>
    (f.boolean value).map fun b => { c with commandsUpdatePrevious := b }
  | banner => (f.boolean value).map fun b => { c with banner := b }
  | farewell => (f.text value).map fun s => { c with farewell := s }

end Field

/-- The keys of a table that name no field, in the order of their code points. -/
def unknownKeys (t : Table) : List String :=
  (t.keys.filter fun key => (Field.ofKey? key).isNone).mergeSort fun a b => ¬b < a

def setEntry (c : Config) (entry : String × Value) : Except Problem Config :=
  match Field.ofKey? entry.1 with
  | some f => f.set c entry.2
  | none => .ok c

def ofTable (t : Table) : Except Problem Config :=
  -- Unknown keys come before all values that do not fit.
  if unknownKeys t = [] then t.foldlM setEntry {} else .error (.unknownKeys (unknownKeys t))

def ofDocument (document : Table) : Except Problem Config :=
  match document.get? tableName with
  | none => .ok {}
  | some (.table t) => ofTable t
  | some _ => .error .notATable

inductive LoadError
  | missing (path : Path)
  | unreadable (path : Path)
  | notUtf8 (path : Path)
  | notToml (path : Path)
  | invalid (problem : Problem)
  deriving DecidableEq, Repr

/-- What is said about a file that gives no settings. Of a file that is no TOML the text goes as far
as the path: the TOML reader's own reason, which comes after a colon, is no part of the model. -/
def LoadError.message : LoadError → String
  | missing path => "Missing config file: " ++ path.toString
  | unreadable path => "Failed reading config file: " ++ path.toString
  | notUtf8 path => "Config is not valid UTF-8: " ++ path.toString
  | notToml path => "Invalid TOML in " ++ path.toString
  | invalid problem => problem.message

def ofBytes (path : Path) (content : ByteArray) : Except (Failure LoadError) Config :=
  match String.fromUTF8? content with
  | none => .error (.reported (.notUtf8 path))
  | some text =>
    match Toml.document text with
    | .error e => .error (e.map fun _ => .notToml path)
    | .ok document => (ofDocument document).mapError fun e => .reported (.invalid e)

def load (read : Path → Except ReadFailure ByteArray) (path : Path) :
    Except (Failure LoadError) Config :=
  -- No file is looked for under such a path.
  if path.hasNull then .error (.broken .nullInPath)
  else
    match read path with
    | .error .missing => .error (.reported (.missing path))
    | .error .unreadable => .error (.reported (.unreadable path))
    | .ok content => ofBytes path content

end Config

end SlotCalc
