import SlotCalc.Proofs.Expr.Brackets
import SlotCalc.Proofs.Token.RoundTrip

namespace SlotCalc.Expr

def IsPiece (text : String) : Prop :=
  text.toList ≠ [] ∧ ∀ c ∈ text.toList, Text.isBlank c = false

/-- A piece that is an operand by itself, a numeral or a slot, with the token that it stands for. -/
structure Leaf where
  token : Token
  isPiece : IsPiece token.lexeme
  spells : Token.Spells token.lexeme.toList token
  isOperand : token.kind = .number ∨ token.kind = .slot

def Leaf.formula (l : Leaf) : Expr :=
  if l.token.kind = .number then .number l.token.value else .slot l.token.name

inductive Tree
  | leaf (l : Leaf)
  | node (op : Operator) (left right : Tree)

namespace Tree

def root? : Tree → Option Operator
  | leaf _ => none
  | node op _ _ => some op

def isSum (t : Tree) : Bool := t.root?.any Operator.isAdditive

/-- Whether the tree needs brackets as the left operand of `op`. -/
def needsBracketsLeft (op : Operator) (t : Tree) : Bool := !op.isAdditive && t.isSum

/-- Whether the tree needs brackets as the right operand of `op`. Operators of one level are
carried out from left to right. -/
def needsBracketsRight (op : Operator) (t : Tree) : Bool :=
  if op.isAdditive then t.isSum else t.root?.isSome

def bracketedIf (needed : Bool) (pieces : List String) : List String :=
  if needed then "(" :: (pieces ++ [")"]) else pieces

def pieces : Tree → List String
  | leaf l => [l.token.lexeme]
  | node op left right =>
    bracketedIf (left.needsBracketsLeft op) left.pieces ++
      op.symbol.toString :: bracketedIf (right.needsBracketsRight op) right.pieces

def text (t : Tree) : String := " ".intercalate t.pieces

def formula : Tree → Expr
  | leaf l => l.formula
  | node op left right => .binary op left.formula right.formula

end Tree

def Spelt (pieces : List String) (tokens : List Token) : Prop :=
  List.Forall₂ (fun piece => Token.Spells piece.toList) pieces tokens

def OperandOf (pieces : List String) (e : Expr) : Prop :=
  ∃ d : Derivation .operand, Spelt pieces d.tokens ∧ d.formula = e

/-- The pieces are a product that can go on with any tail. -/
def ProductOf (pieces : List String) (e : Expr) : Prop :=
  ∀ (after : List String) (more : Derivation .productTail), Spelt after more.tokens →
    ∃ d : Derivation .product, Spelt (pieces ++ after) d.tokens ∧
      d.formula = chain .binary e more.formula

/-- The pieces are a sum that can go on with any tail. -/
def SumOf (pieces : List String) (e : Expr) : Prop :=
  ∀ (after : List String) (more : Derivation .sumTail), Spelt after more.tokens →
    ∃ d : Derivation .sum, Spelt (pieces ++ after) d.tokens ∧
      d.formula = chain .binary e more.formula

section
variable {pieces left right : List String} {tokens : List Token} {e e' : Expr} {op : Operator}

theorem Spelt.append {pieces' : List String} {tokens' : List Token} (h : Spelt pieces tokens)
    (h' : Spelt pieces' tokens') : Spelt (pieces ++ pieces') (tokens ++ tokens') :=
  List.rel_append h h'

theorem OperandOf.productOf (h : OperandOf pieces e) : ProductOf pieces e := by
  obtain ⟨d, hd, rfl⟩ := h
  intro after more hmore
  exact ⟨.product d more, hd.append hmore, rfl⟩

theorem ProductOf.exists_product (h : ProductOf pieces e) :
    ∃ d : Derivation .product, Spelt pieces d.tokens ∧ d.formula = e := by
  obtain ⟨d, hd, rfl⟩ := h [] .productEnd .nil
  exact ⟨d, by simpa using hd, rfl⟩

theorem ProductOf.sumOf (h : ProductOf pieces e) : SumOf pieces e := by
  obtain ⟨d, hd, rfl⟩ := h.exists_product
  intro after more hmore
  exact ⟨.sum d more, hd.append hmore, rfl⟩

theorem SumOf.exists_sum (h : SumOf pieces e) :
    ∃ d : Derivation .sum, Spelt pieces d.tokens ∧ d.formula = e := by
  obtain ⟨d, hd, rfl⟩ := h [] .sumEnd .nil
  exact ⟨d, by simpa using hd, rfl⟩

def openingToken : Token := { kind := .opening, lexeme := "(" }

def closingToken : Token := { kind := .closing, lexeme := ")" }

theorem SumOf.bracketed (h : SumOf pieces e) : OperandOf ("(" :: (pieces ++ [")"])) e := by
  obtain ⟨d, hd, rfl⟩ := h.exists_sum
  exact ⟨.bracketed openingToken rfl d closingToken rfl,
    .cons (.opening rfl) (hd.append (.cons (.closing rfl) .nil)), rfl⟩

def signToken (op : Operator) : Token := { kind := .operator op, lexeme := op.symbol.toString }

theorem Spelt.cons_sign (op : Operator) (h : Spelt pieces tokens) :
    Spelt (op.symbol.toString :: pieces) (signToken op :: tokens) := by
  have hsign : Token.Spells op.symbol.toString.toList (signToken op) := by
    cases op <;> exact .operator _ rfl
  exact .cons hsign h

theorem ProductOf.binary (hop : op.isAdditive = false) (h : ProductOf left e)
    (h' : OperandOf right e') :
    ProductOf (left ++ op.symbol.toString :: right) (.binary op e e') := by
  obtain ⟨d', hd', rfl⟩ := h'
  intro after more hmore
  obtain ⟨d, hd, hformula⟩ := h (op.symbol.toString :: right ++ after)
    (.productMore (signToken op) op rfl hop d' more) ((hd'.append hmore).cons_sign op)
  exact ⟨d, by simpa using hd, hformula⟩

theorem SumOf.binary (hop : op.isAdditive = true) (h : SumOf left e) (h' : ProductOf right e') :
    SumOf (left ++ op.symbol.toString :: right) (.binary op e e') := by
  obtain ⟨d', hd', rfl⟩ := h'.exists_product
  intro after more hmore
  obtain ⟨d, hd, hformula⟩ := h (op.symbol.toString :: right ++ after)
    (.sumMore (signToken op) op rfl hop d' more) ((hd'.append hmore).cons_sign op)
  exact ⟨d, by simpa using hd, hformula⟩

end

theorem Leaf.operandOf (l : Leaf) : OperandOf [l.token.lexeme] l.formula := by
  obtain hnumber | hslot := l.isOperand
  · exact ⟨.number l.token hnumber, .cons l.spells .nil, by rw [formula, if_pos hnumber]; rfl⟩
  · exact ⟨.slot l.token hslot, .cons l.spells .nil, by rw [formula, if_neg (by simp [hslot])]; rfl⟩

namespace Tree

/-- A tree is read as a sum, as a product if its root is not additive, and as an operand if it is a
leaf. -/
structure IsRead (t : Tree) : Prop where
  sumOf : SumOf t.pieces t.formula
  productOf : t.isSum = false → ProductOf t.pieces t.formula
  operandOf : t.root? = none → OperandOf t.pieces t.formula

theorem IsRead.left {t : Tree} (h : t.IsRead) {op : Operator} (hop : op.isAdditive = false) :
    ProductOf (bracketedIf (t.needsBracketsLeft op) t.pieces) t.formula := by
  cases hsum : t.isSum with
  | true => simpa [needsBracketsLeft, hop, hsum, bracketedIf] using h.sumOf.bracketed.productOf
  | false => simpa [needsBracketsLeft, hsum, bracketedIf] using h.productOf hsum

-- `a - (b - c * d)` and `(a - b) - c / d`, of which only the first needs its brackets.
example (a b c d : Leaf) :
    (node .minus (leaf a) (node .minus (leaf b) (node .times (leaf c) (leaf d)))).pieces =
      [a.token.lexeme, "-", "(", b.token.lexeme, "-", c.token.lexeme, "*", d.token.lexeme, ")"] ∧
    (node .minus (node .minus (leaf a) (leaf b)) (node .dividedBy (leaf c) (leaf d))).pieces =
      [a.token.lexeme, "-", b.token.lexeme, "-", c.token.lexeme, "/", d.token.lexeme] := by
  exact ⟨rfl, rfl⟩

end Tree

end SlotCalc.Expr
