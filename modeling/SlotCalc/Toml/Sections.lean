import SlotCalc.Toml.Nested

namespace SlotCalc.Toml

structure Progress where
  root : Table := []
  marks : Marks := {}
  current : KeyPath := []

namespace Progress

/-- `[path]`: a table that no header has opened before. -/
def openTable (p : Progress) (path : KeyPath) : Option Progress := do
  let marks := p.marks.settle
  if marks.isOpened path || marks.isClosed path then none
  else
    let root ← changeAt true some p.root path
    some { root, marks := marks.openPath path, current := path }

/-- `[[path]]`: one more table at the end of a list of tables. -/
def openItem (p : Progress) (path : KeyPath) : Option Progress := do
  let marks := p.marks.settle
  if marks.isClosed path then none
  else
    let root ← changeAt true (appendTable (path.getLast?.getD "")) p.root path.dropLast
    -- What was marked below the path belongs to the table before.
    some { root, marks := (marks.forget path).openPath path, current := path }

/-- The tables below the current section that a key with points goes through. -/
def through (p : Progress) (path : KeyPath) : List KeyPath :=
  (List.range (path.length - 1)).map fun n => p.current ++ path.take (n + 1)

def addEntry (p : Progress) (path : KeyPath) (value : Value) : Option Progress := do
  let marks := p.marks
  let tables := p.through path
  let place := p.current ++ path.dropLast
  if tables.any marks.isOpened || marks.isClosed place then none
  else
    let root ← changeAt true (addNew (path.getLast?.getD "") value) p.root place
    let marks := { marks with pending := tables ++ marks.pending }
    let marks := if value.isContainer then marks.closePath (p.current ++ path) else marks
    some { p with root, marks }

end Progress

def header? (closing : String) (text : List Char) : Read KeyPath :=
  (key? text.length (skipBlanks text)).bind fun (path, rest) =>
    (after? closing rest).map fun rest => (path, rest)

def statement (p : Progress) (text : List Char) : Reading (Progress × List Char) :=
  match text with
  | '[' :: '[' :: rest => do
    let (path, rest) ← orInvalid (header? "]]" rest)
    return (← orInvalid (p.openItem path), rest)
  | '[' :: rest => do
    let (path, rest) ← orInvalid (header? "]" rest)
    return (← orInvalid (p.openTable path), rest)
  | '#' :: _ => .ok (p, text)
  | text => do
    let (path, rest) ← orInvalid (keyAndEquals? text)
    let (value, rest) ← anyValue rest
    return (← orInvalid (p.addEntry path value), rest)

/-- Reads statements up to the end. The recursion is bounded by `fuel`, one unit for each line. -/
def statements (fuel : Nat) (p : Progress) (text : List Char) : Reading Progress :=
  match fuel with
  | 0 => .error (.reported {})
  | fuel + 1 =>
    match skipBlanks text with
    | [] => .ok p
    | '\n' :: rest => statements fuel p rest
    | text => do
      let (p, rest) ← statement p text
      match ← orInvalid (skipComment? (skipBlanks rest)) with
      | [] => return p
      | '\n' :: rest => statements fuel p rest
      | _ => .error (.reported {})

def normalBreaks : List Char → List Char
  | '\r' :: '\n' :: rest => '\n' :: normalBreaks rest
  | c :: rest => c :: normalBreaks rest
  | [] => []

def document (text : String) : Reading Table :=
  let chars := normalBreaks text.toList
  (statements (chars.length + 1) {} chars).map (·.root)

end SlotCalc.Toml
