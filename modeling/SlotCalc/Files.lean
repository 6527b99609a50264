namespace SlotCalc

/-- A path without the parts that say nothing: empty ones and single points. -/
structure Path where
  root : String
  parts : List String
  deriving DecidableEq, Repr

namespace Path

/-- Two slashes at the beginning are kept, more than two count as one. -/
def rootOf (slashes : Nat) : String :=
  if slashes = 0 then "" else if slashes = 2 then "//" else "/"

def ofString (s : String) : Path :=
  let slashes := (s.toList.takeWhile (· = '/')).length
  let parts := (s.toList.splitOn '/').map String.ofList
  { root := rootOf slashes, parts := parts.filter fun part => part ≠ "" ∧ part ≠ "." }

def toString (p : Path) : String :=
  if p.root = "" ∧ p.parts = [] then "." else p.root ++ "/".intercalate p.parts

instance : ToString Path := ⟨toString⟩

def hasNull (p : Path) : Bool := p.parts.any fun part => part.toList.contains '\x00'

end Path

inductive ReadFailure
  | missing
  | unreadable
  deriving DecidableEq, Repr

/-- Where paths begin: at the root, or at the working directory and what is above it. -/
inductive Base
  | root
  | above (levels : Nat)
  deriving DecidableEq, Repr

structure Place where
  base : Base
  names : List String
  deriving DecidableEq, Repr

namespace Place

def start (path : Path) : Place := ⟨if path.root = "" then .above 0 else .root, []⟩

def up (p : Place) : Place :=
  match p.names, p.base with
  | [], .root => p
  | [], .above levels => ⟨.above (levels + 1), []⟩
  | names, base => ⟨base, names.dropLast⟩

def step (p : Place) (part : String) : Place :=
  if part = ".." then p.up else { p with names := p.names ++ [part] }

def trail (p : Place) : List String → List Place
  | [] => [p]
  | part :: more => p :: (p.step part).trail more

end Place

/-- Files by their places, and the directories on the ways to them. Of two files in the same place
the later one counts. -/
structure Files where
  entries : List (Place × ByteArray)
  directories : List Place

namespace Files

def empty : Files := ⟨[], []⟩

def add (f : Files) (path : Path) (content : ByteArray) : Files :=
  let place := path.parts.foldl Place.step (.start path)
  { entries := (place, content) :: f.entries
    directories := (Place.trail (.start path) path.parts).dropLast ++ f.directories }

def ofContents (contents : List (String × ByteArray)) : Files :=
  contents.foldl (fun f c => f.add (.ofString c.1) c.2) empty

def content? (f : Files) (place : Place) : Option ByteArray := f.entries.lookup place

def isDirectory (f : Files) (place : Place) : Bool :=
  place.names.isEmpty || f.directories.contains place

def enter (f : Files) (place : Place) (part : String) : Except ReadFailure Place :=
  let next := place.step part
  if 255 < part.utf8ByteSize || (f.content? place).isSome then .error .unreadable
  else if (f.content? next).isSome || f.isDirectory next then .ok next
  else .error .missing

/-- The content of the file at a path. A directory has none. -/
def read (f : Files) (path : Path) : Except ReadFailure ByteArray :=
  if 4096 ≤ path.toString.utf8ByteSize then .error .unreadable
  else
    match path.parts.foldlM f.enter (.start path) with
    | .error e => .error e
    | .ok place =>
      match f.content? place with
      | some content => .ok content
      | none => .error .unreadable

end Files

/-- What ends a run without a report of the program's own: nothing is printed but a word on the
cause, to the standard error, and the status is 1. -/
inductive Breakdown
  | emptyPath
  | emptyNumber
  | emptyLevel
  | nullInPath
  | integerTooLong
  | nestingTooDeep
  deriving DecidableEq, Repr

def Breakdown.message : Breakdown → String
  | emptyPath => "the option for the settings file is empty"
  | emptyNumber => "the option for the number of slots is empty"
  | emptyLevel => "the option for the level of the log is empty"
  | nullInPath => "null character in a path"
  | integerTooLong => "integer with too many digits"
  | nestingTooDeep => "lists and tables nested too deep"

/-- An error that is reported, or a breakdown. -/
inductive Failure (ε : Type)
  | reported (e : ε)
  | broken (cause : Breakdown)
  deriving DecidableEq, Repr

def Failure.map (f : ε → δ) : Failure ε → Failure δ
  | reported e => reported (f e)
  | broken cause => broken cause

end SlotCalc
