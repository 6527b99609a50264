import SlotCalc.Options.Switch
import SlotCalc.Text

namespace SlotCalc

/-- An argument by its form. If it begins with a hyphen it is an option when it spells one in full,
when it is an unambiguous beginning of a long one, or when its first two characters are a short one;
a value may follow after a sign of equality. Negative numbers and texts with a space are none. -/
inductive Argument
  | plain (text : String)
  | separator
  | long (option : Switch) (value : Option String)
  | short (option : Switch) (value : Option String)
  /-- It has the form of an option, but there is none of that name. -/
  | unknown (text : String)
  deriving DecidableEq, Repr

namespace Argument

open Text (isDigit)

def isNegativeNumber (text : List Char) : Bool :=
  match text with
  | '-' :: rest =>
    let rest := if rest.getLast? = some '\n' then rest.dropLast else rest
    let whole := rest.takeWhile isDigit
    match rest.dropWhile isDigit with
    | [] => !whole.isEmpty
    | '.' :: decimals => !decimals.isEmpty && decimals.all isDigit
    | _ => false
  | _ => false

def full? (text : List Char) (value : Option String) : Option Argument :=
  match text with
  | ['-', c] => (Switch.ofLetter? c).map (short · value)
  | _ => (Switch.ofLong? (String.ofList text)).map (long · value)

def splitEquals (text : List Char) : List Char × Option String :=
  match text.dropWhile (· ≠ '=') with
  | [] => (text, none)
  | _ :: value => (text.takeWhile (· ≠ '='), some (String.ofList value))

def abbreviated (text : List Char) : Except Options.Problem Argument :=
  let other :=
    if isNegativeNumber text || text.contains ' ' then plain (String.ofList text)
    else unknown (String.ofList text)
  match text with
  | '-' :: '-' :: _ =>
    let (name, value) := splitEquals text
    match Switch.completions name with
    | [] => .ok other
    | [option] => .ok (long option value)
    | candidates => .error (.ambiguous (String.ofList text) candidates)
  | '-' :: c :: value =>
    match Switch.ofLetter? c with
    | some option => .ok (short option (some (String.ofList value)))
    | none => .ok other
  | _ => .ok other

def ofText (text : List Char) : Except Options.Problem Argument :=
  match text with
  | '-' :: _ :: _ =>
    match full? text none with
    | some argument => .ok argument
    | none =>
      let (name, value) := splitEquals text
      match value.bind fun v => full? name (some v) with
      | some argument => .ok argument
      | none => abbreviated text
  | _ => .ok (plain (String.ofList text))

def ofTexts : List String → Except Options.Problem (List Argument)
  | [] => .ok []
  | text :: more =>
    if text = "--" then .ok (separator :: more.map plain)
    else
      match ofText text.toList with
      | .error e => .error e
      | .ok argument => (ofTexts more).map (argument :: ·)

end Argument

end SlotCalc
