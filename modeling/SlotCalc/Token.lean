import SlotCalc.Decimal.Numeral
import SlotCalc.Operator
import SlotCalc.Text.Quoted

namespace SlotCalc

inductive Token.Kind
  | number
  | slot
  | slotPlus
  | slotMinus
  | operator (op : Operator)
  | opening
  | closing
  deriving DecidableEq, Repr

def Token.Kind.label : Kind → String
  | number => "NUMBER"
  | slot => "MEMORY_REF"
  | slotPlus => "MEMORY_PLUS"
  | slotMinus => "MEMORY_MINUS"
  | operator .plus => "PLUS"
  | operator .minus => "MINUS"
  | operator .times => "STAR"
  | operator .dividedBy => "SLASH"
  | opening => "BRACKET_OPEN"
  | closing => "BRACKET_CLOSE"

def Token.Kind.isCommand : Kind → Bool
  | slotPlus | slotMinus => true
  | _ => false

structure Token where
  kind : Token.Kind
  lexeme : String
  value : Float := 0
  name : String := ""

namespace Token

/-- Equality of tokens, which leaves the value out: the lexeme determines it, and a value that is
not a number would differ from itself. -/
def same (a b : Token) : Bool := a.kind = b.kind && a.lexeme = b.lexeme && a.name = b.name

instance : BEq Token := ⟨same⟩

def tagged (t : Token) : String := "<" ++ t.kind.label ++ ">" ++ t.lexeme

def joined (tokens : List Token) : String := " ".intercalate (tokens.map lexeme)

def symbolKind? : List Char → Option Kind
  | ['+'] => some (.operator .plus)
  | ['-'] => some (.operator .minus)
  | ['*'] => some (.operator .times)
  | ['/'] => some (.operator .dividedBy)
  | ['('] => some .opening
  | [')'] => some .closing
  | _ => none

/-- The kind of a memory piece and the name of its slot, from what follows `mem`: one sign at
the end makes it a command. -/
def slotParts (name : List Char) : Kind × List Char :=
  if name.getLast? = some '+' then (.slotPlus, name.dropLast)
  else if name.getLast? = some '-' then (.slotMinus, name.dropLast)
  else (.slot, name)

def slotParts? : List Char → Option (Kind × List Char)
  | 'm' :: 'e' :: 'm' :: name => some (slotParts name)
  | _ => none

/-- The token that a piece stands for: a symbol, a memory piece or else a number. -/
def ofPiece? (piece : List Char) : Option Token :=
  let lexeme := String.ofList piece
  match symbolKind? piece, slotParts? piece with
  | some kind, _ => some { kind, lexeme }
  | none, some (kind, name) => some { kind, lexeme, name := String.ofList name }
  | none, none => (Numeral.read? piece).map fun n => { kind := .number, lexeme, value := n.toFloat }

end Token

structure Malformed where
  line : String
  index : Nat
  piece : String
  deriving DecidableEq, Repr

namespace Malformed

/-- Where a window ends: at most at the end of the line, and a number below zero counts back from
there. -/
def windowEnd (length : Nat) (last : Int) : Nat :=
  if 0 ≤ last then min length last.toNat else length - last.natAbs

/-- A message, the part of the line around `index` and a caret under `index`. At most 15
characters are shown on either side; dots stand for what is cut off. -/
def report (message line : String) (index : Int) : String :=
  let text := line.toList
  let first := (index - 15).toNat
  let before := if 0 < first then "..." else ""
  let after := if index + 15 < text.length then "..." else ""
  let window := (text.take (windowEnd text.length (index + 15))).drop first
  let column := (index - first + before.length).toNat
  "[Tokenizer error] " ++ message ++ "\n" ++ before ++ String.ofList window ++ after ++ "\n" ++
    String.ofList (List.replicate column ' ') ++ "^"

def reason (e : Malformed) : String := "Not a number: " ++ Text.quoted e.piece

def message (e : Malformed) : String := report e.reason e.line e.index

end Malformed

namespace Token

open Text (Piece pieces)

def ofPiece (line : String) (piece : Piece) : Except Malformed Token :=
  match ofPiece? piece.text with
  | some token => .ok token
  | none => .error ⟨line, piece.start, String.ofList piece.text⟩

def ofLine (line : String) : Except Malformed (List Token) :=
  (pieces line.toList).mapM (ofPiece line)

inductive Stop
  | limit
  | endOfLine
  | malformed (e : Malformed)

def takePieces (line : String) : Nat → List Piece → List Token × Stop
  | 0, _ => ([], .limit)
  | _ + 1, [] => ([], .endOfLine)
  | n + 1, piece :: more =>
    match ofPiece line piece with
    | .error e => ([], .malformed e)
    | .ok token =>
      let (tokens, stop) := takePieces line n more
      (token :: tokens, stop)

def take (limit : Nat) (line : String) : List Token × Stop :=
  takePieces line limit (pieces line.toList)

end Token

end SlotCalc
