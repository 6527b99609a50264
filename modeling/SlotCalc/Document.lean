namespace SlotCalc

inductive Value
  /-- What a document may hold in place of a value; no settings file can write it. -/
  | null
  | boolean (b : Bool)
  | integer (n : Int)
  | real (x : Float)
  | text (s : String)
  | moment (s : String)
  | list (items : List Value)
  | table (entries : List (String × Value))

def Value.isContainer : Value → Bool
  | list _ | table _ => true
  | _ => false

/-- Values by their keys, which are distinct, in the order in which they were written. -/
abbrev Table := List (String × Value)

namespace Table

def get? (t : Table) (key : String) : Option Value := t.lookup key

def keys (t : Table) : List String := t.map Prod.fst

def put (t : Table) (key : String) (value : Value) : Table :=
  if (t.get? key).isSome then t.map fun e => if e.1 = key then (key, value) else e
  else t ++ [(key, value)]

def ofEntries (entries : List (String × Value)) : Table :=
  entries.foldl (fun t e => t.put e.1 e.2) []

end Table

namespace Toml

abbrev KeyPath := List String

/-- Changes the table at a path, and creates the tables on the way that do not exist. With
`throughLists`, a list of tables stands for its last one. `none` if another value is in the way or
if the change is refused. -/
def changeAt (throughLists : Bool) (change : Table → Option Table) (t : Table) :
    KeyPath → Option Table
  | [] => change t
  | key :: more =>
    match t.get? key with
    | none => (changeAt throughLists change [] more).map fun sub => t.put key (.table sub)
    | some (.table sub) =>
      (changeAt throughLists change sub more).map fun sub => t.put key (.table sub)
    | some (.list items) =>
      match throughLists, items.getLast? with
      | true, some (.table sub) =>
        (changeAt throughLists change sub more).map fun sub =>
          t.put key (.list (items.dropLast ++ [.table sub]))
      | _, _ => none
    | some _ => none

def addNew (key : String) (value : Value) (t : Table) : Option Table :=
  if (t.get? key).isSome then none else some (t.put key value)

def appendTable (key : String) (t : Table) : Option Table :=
  match t.get? key with
  | none => some (t.put key (.list [.table []]))
  | some (.list items) => some (t.put key (.list (items ++ [.table []])))
  | some _ => none

/-- The paths that statements may not open again: tables that a header or an earlier section has
opened, values that are written out and may not be added to, and tables that keys of the current
section have opened. -/
structure Marks where
  opened : List KeyPath := []
  closed : List KeyPath := []
  pending : List KeyPath := []

namespace Marks

def isOpened (m : Marks) (path : KeyPath) : Bool := m.opened.contains path

def isClosed (m : Marks) (path : KeyPath) : Bool := m.closed.any (·.isPrefixOf path)

def openPath (m : Marks) (path : KeyPath) : Marks := { m with opened := path :: m.opened }

def closePath (m : Marks) (path : KeyPath) : Marks := { m with closed := path :: m.closed }

def settle (m : Marks) : Marks := { m with opened := m.pending ++ m.opened, pending := [] }

def forget (m : Marks) (path : KeyPath) : Marks :=
  { m with
    opened := m.opened.filter fun p => !path.isPrefixOf p
    closed := m.closed.filter fun p => !path.isPrefixOf p }

end Marks

end Toml

end SlotCalc
