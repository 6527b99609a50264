import SlotCalc.Toml.Scalar

namespace SlotCalc.Toml

def isBareKeyChar (c : Char) : Bool := c.isAlphanum || c = '-' || c = '_'

def keyPart? : List Char → Read String
  | '"' :: rest => (basicString rest).map fun r => (String.ofList r.1, r.2)
  | '\'' :: rest => (literalString rest).map fun r => (String.ofList r.1, r.2)
  | text =>
    match text.takeWhile isBareKeyChar with
    | [] => none
    | bare => some (String.ofList bare, text.dropWhile isBareKeyChar)

/-- A key of parts with points between them, which may have blanks around them; the blanks after
the key are skipped too. -/
def key? : Nat → List Char → Read KeyPath
  | 0, _ => none
  | fuel + 1, text =>
    (keyPart? text).bind fun (part, rest) =>
      match skipBlanks rest with
      | '.' :: more => (key? fuel (skipBlanks more)).map fun r => (part :: r.1, r.2)
      | rest => some ([part], rest)

def keyAndEquals? (text : List Char) : Read KeyPath :=
  (key? text.length text).bind fun (path, rest) =>
    match rest with
    | '=' :: more => some (path, skipBlanks more)
    | _ => none

def skipGap? : Nat → List Char → Option (List Char)
  | 0, text => some text
  | fuel + 1, text =>
    match text.dropWhile isBlankOrBreak with
    | '#' :: rest => (skipComment? ('#' :: rest)).bind (skipGap? fuel)
    | rest => some rest

def gap? (text : List Char) : Option (List Char) := skipGap? text.length text

def addField (closed : List KeyPath) (path : KeyPath) (value : Value) (t : Table) : Option Table :=
  if (Marks.isClosed { closed } path) then none
  else changeAt false (addNew (path.getLast?.getD "") value) t path.dropLast

def listRoom : Nat := 2

def tableRoom : Nat := 3

/-- How deep values may be nested, in units of which a list takes two and an inline table three:
there may be 493 lists in one another. -/
def fullRoom : Nat := 986

def roomWithin (taken room : Nat) : Reading Nat :=
  if taken ≤ room then .ok (room - taken) else .error (.broken .nestingTooDeep)

-- `fuel` bounds the recursion, and two units of it suffice for each character; `room` is what is
-- left for further values inside the one that is read.
mutual

def value (fuel room : Nat) (text : List Char) : Reading (Value × List Char) :=
  match fuel with
  | 0 => .error (.reported {})
  | fuel + 1 =>
    match text with
    | '[' :: rest => do
      let room ← roomWithin listRoom room
      let (done, rest) ← items fuel room [] (← orInvalid (gap? rest))
      return (.list done, rest)
    | '\x7b' :: rest => do
      let room ← roomWithin tableRoom room
      match skipBlanks rest with
      | '\x7d' :: more => return (.table [], more)
      | rest =>
        let (done, rest) ← fields fuel room [] [] rest
        return (.table done, rest)
    | text => scalarValue text

def items (fuel room : Nat) (done : List Value) (text : List Char) :
    Reading (List Value × List Char) :=
  match fuel with
  | 0 => .error (.reported {})
  | fuel + 1 =>
    match text with
    | ']' :: rest => .ok (done, rest)
    | text => do
      let (value, rest) ← value fuel room text
      match ← orInvalid (gap? rest) with
      | ']' :: rest => return (done ++ [value], rest)
      | ',' :: rest => items fuel room (done ++ [value]) (← orInvalid (gap? rest))
      | _ => .error (.reported {})

def fields (fuel room : Nat) (closed : List KeyPath) (done : Table) (text : List Char) :
    Reading (Table × List Char) :=
  match fuel with
  | 0 => .error (.reported {})
  | fuel + 1 => do
    let (path, rest) ← orInvalid (keyAndEquals? text)
    let (value, rest) ← value fuel room rest
    let done ← orInvalid (addField closed path value done)
    match skipBlanks rest with
    | '\x7d' :: rest => return (done, rest)
    | ',' :: rest =>
      let closed := if value.isContainer then path :: closed else closed
      fields fuel room closed done (skipBlanks rest)
    | _ => .error (.reported {})

end

def anyValue (text : List Char) : Reading (Value × List Char) :=
  value (2 * text.length + 2) fullRoom text

end SlotCalc.Toml
