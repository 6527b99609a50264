import SlotCalc.Store
import SlotCalc.Token

namespace SlotCalc

inductive Expr
  | number (value : Float)
  | slot (name : String)
  | binary (op : Operator) (left right : Expr)

def Expr.eval (s : Store) : Expr → Float
  | number value => value
  | slot name => s.get name
  | binary op left right => op.apply (left.eval s) (right.eval s)

namespace Expr

def nestingLimit : Nat := 200

inductive Fault.Cause
  | unclosed
  | unexpected (found : Token.Kind)
  | endOfInput
  | trailing (found : Token.Kind)
  | tooDeep
  deriving DecidableEq, Repr

structure Fault where
  cause : Fault.Cause
  index : Nat
  deriving DecidableEq, Repr

namespace Fault

def Cause.label : Cause → String
  | unclosed => "UnbalancedParens"
  | unexpected _ => "UnexpectedToken"
  | endOfInput => "UnexpectedEndOfInput"
  | trailing _ => "TrailingTokens"
  | tooDeep => "NestingTooDeep"

def Cause.reason : Cause → String
  | unclosed => "Unclosed bracket"
  | unexpected found => "Operand expected, found " ++ found.label
  | endOfInput => "Operand expected, found end of input"
  | trailing found => "Expression is complete, found extra " ++ found.label
  | tooDeep => "Brackets nested deeper than " ++ toString nestingLimit ++ " levels"

/-- A message, the tokens and a caret under the token at `index`. -/
def report (reason : String) (tokens : List Token) (index : Nat) : String :=
  let before := tokens.take index
  let column := (Token.joined before).length + if before.isEmpty then 0 else 1
  "Parser error: " ++ reason ++ "\n" ++ Token.joined tokens ++ "\n" ++
    String.ofList (List.replicate column ' ') ++ "^"

def message (e : Fault) (tokens : List Token) : String := report e.cause.reason tokens e.index

end Fault

/-- A formula that was read, the fewer than `bound` tokens after it, and the position of the first
of them. -/
structure Reading (bound : Nat) where
  expr : Expr
  next : Nat
  rest : List Token
  shorter : rest.length < bound

def additive? : Token.Kind → Option Operator
  | .operator op => if op.isAdditive then some op else none
  | _ => none

def multiplicative? : Token.Kind → Option Operator
  | .operator op => if op.isAdditive then none else some op
  | _ => none

-- The grammar:
--   sum     = product { ("+" | "-") product }
--   product = operand { ("*" | "/") operand }
--   operand = number | slot | "(" sum ")"
-- A chain of operators is read from left to right, and each rule takes as many tokens as it can.
mutual

/-- Reads an operand inside `depth` brackets. -/
def operand (depth index : Nat) (tokens : List Token) : Except Fault (Reading tokens.length) :=
  match tokens with
  | [] => .error ⟨.endOfInput, index⟩
  | t :: rest =>
    match t.kind with
    | .number => .ok ⟨.number t.value, index + 1, rest, by simp⟩
    | .slot => .ok ⟨.slot t.name, index + 1, rest, by simp⟩
    | .opening =>
      if nestingLimit ≤ depth then .error ⟨.tooDeep, index⟩
      else
        match sum (depth + 1) (index + 1) rest with
        | .error e => .error e
        | .ok ⟨inner, place, [], _⟩ => .error ⟨.unclosed, index⟩
        | .ok ⟨inner, place, close :: more, h⟩ =>
          if close.kind = .closing then
            .ok ⟨inner, place + 1, more, by simp only [List.length_cons] at h ⊢; omega⟩
          else .error ⟨.unclosed, index⟩
    | found => .error ⟨.unexpected found, index⟩
termination_by 3 * tokens.length

def product (depth index : Nat) (tokens : List Token) : Except Fault (Reading tokens.length) :=
  match operand depth index tokens with
  | .error e => .error e
  | .ok ⟨first, place, rest, h⟩ =>
    match productTail depth first place rest with
    | .error e => .error e
    | .ok ⟨expr, after, remaining, h'⟩ => .ok ⟨expr, after, remaining, by omega⟩
termination_by 3 * tokens.length + 1

def productTail (depth : Nat) (left : Expr) (index : Nat) (tokens : List Token) :
    Except Fault (Reading (tokens.length + 1)) :=
  match tokens with
  | [] => .ok ⟨left, index, [], by simp⟩
  | t :: rest =>
    match multiplicative? t.kind with
    | none => .ok ⟨left, index, t :: rest, by simp⟩
    | some op =>
      match operand depth (index + 1) rest with
      | .error e => .error e
      | .ok ⟨right, place, more, h⟩ =>
        match productTail depth (.binary op left right) place more with
        | .error e => .error e
        | .ok ⟨expr, after, remaining, h'⟩ =>
          .ok ⟨expr, after, remaining, by simp only [List.length_cons]; omega⟩
termination_by 3 * tokens.length

def sum (depth index : Nat) (tokens : List Token) : Except Fault (Reading tokens.length) :=
  match product depth index tokens with
  | .error e => .error e
  | .ok ⟨first, place, rest, h⟩ =>
    match sumTail depth first place rest with
    | .error e => .error e
    | .ok ⟨expr, after, remaining, h'⟩ => .ok ⟨expr, after, remaining, by omega⟩
termination_by 3 * tokens.length + 2

def sumTail (depth : Nat) (left : Expr) (index : Nat) (tokens : List Token) :
    Except Fault (Reading (tokens.length + 1)) :=
  match tokens with
  | [] => .ok ⟨left, index, [], by simp⟩
  | t :: rest =>
    match additive? t.kind with
    | none => .ok ⟨left, index, t :: rest, by simp⟩
    | some op =>
      match product depth (index + 1) rest with
      | .error e => .error e
      | .ok ⟨right, place, more, h⟩ =>
        match sumTail depth (.binary op left right) place more with
        | .error e => .error e
        | .ok ⟨expr, after, remaining, h'⟩ =>
          .ok ⟨expr, after, remaining, by simp only [List.length_cons]; omega⟩
termination_by 3 * tokens.length + 1

end

inductive Rule
  | sum
  | product
  | operand
  deriving DecidableEq, Repr

def Rule.read (rule : Rule) (depth index : Nat) (tokens : List Token) :
    Except Fault (Reading tokens.length) :=
  match rule with
  | .sum => Expr.sum depth index tokens
  | .product => Expr.product depth index tokens
  | .operand => Expr.operand depth index tokens

def Rule.readAt (rule : Rule) (depth start : Nat) (tokens : List Token) :
    Except Fault (Reading (tokens.drop start).length) :=
  rule.read depth start (tokens.drop start)

def ofTokens (tokens : List Token) : Except Fault Expr :=
  match sum 0 0 tokens with
  | .error e => .error e
  | .ok ⟨expr, _, [], _⟩ => .ok expr
  | .ok ⟨_, index, t :: _, _⟩ => .error ⟨.trailing t.kind, index⟩

def evaluate (s : Store) (tokens : List Token) : Except Fault Float :=
  (ofTokens tokens).map (eval s)

end Expr

end SlotCalc
