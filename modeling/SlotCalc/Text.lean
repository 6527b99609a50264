namespace SlotCalc.Text

def inRanges (ranges : List (Nat × Nat)) (c : Char) : Bool :=
  ranges.any fun r => r.1 ≤ c.toNat && c.toNat ≤ r.2

/-- The white space of Unicode, and the four information separators U+001C to U+001F. -/
def blankRanges : List (Nat × Nat) :=
  [(0x09, 0x0d), (0x1c, 0x20), (0x85, 0x85), (0xa0, 0xa0), (0x1680, 0x1680), (0x2000, 0x200a),
    (0x2028, 0x2029), (0x202f, 0x202f), (0x205f, 0x205f), (0x3000, 0x3000)]

def isBlank (c : Char) : Bool := inRanges blankRanges c

theorem isBlank_space : isBlank ' ' = true := by decide

theorem isBlank_lineFeed : isBlank '\n' = true := by decide

/-- The zeros of the decimal digits of all scripts (general category Nd). The digits one to nine
follow each of them. -/
def digitZeros : List Nat :=
  [0x30, 0x660, 0x6f0, 0x7c0, 0x966, 0x9e6, 0xa66, 0xae6, 0xb66, 0xbe6, 0xc66, 0xce6, 0xd66,
    0xde6, 0xe50, 0xed0, 0xf20, 0x1040, 0x1090, 0x17e0, 0x1810, 0x1946, 0x19d0, 0x1a80, 0x1a90,
    0x1b50, 0x1bb0, 0x1c40, 0x1c50, 0xa620, 0xa8d0, 0xa900, 0xa9d0, 0xa9f0, 0xaa50, 0xabf0,
    0xff10, 0x104a0, 0x10d30, 0x11066, 0x110f0, 0x11136, 0x111d0, 0x112f0, 0x11450, 0x114d0,
    0x11650, 0x116c0, 0x11730, 0x118e0, 0x11950, 0x11c50, 0x11d50, 0x11da0, 0x16a60, 0x16ac0,
    0x16b50, 0x1d7ce, 0x1d7d8, 0x1d7e2, 0x1d7ec, 0x1d7f6, 0x1e140, 0x1e2f0, 0x1e950, 0x1fbf0]

def digitValue? (c : Char) : Option Nat :=
  (digitZeros.find? fun z => z ≤ c.toNat && c.toNat < z + 10).map (c.toNat - ·)

def isDigit (c : Char) : Bool := (digitValue? c).isSome

theorem digitValue?_digitChar {d : Nat} (h : d < 10) : digitValue? d.digitChar = some d := by
  have all : ∀ d ∈ List.range 10, digitValue? d.digitChar = some d := by decide
  exact all d (List.mem_range.2 h)

structure Piece where
  start : Nat
  text : List Char
  deriving DecidableEq, Repr

/-- The pieces of a text whose first character stands at position `start`. -/
def piecesFrom (start : Nat) : List Char → List Piece
  | [] => []
  | c :: rest =>
    if isBlank c then piecesFrom (start + 1) rest
    else
      let run := c :: rest.takeWhile (!isBlank ·)
      ⟨start, run⟩ :: piecesFrom (start + run.length) (rest.dropWhile (!isBlank ·))
termination_by text => text.length
decreasing_by
  · simp
  · exact Nat.lt_succ_of_le (List.dropWhile_suffix _).length_le

def pieces (text : List Char) : List Piece := piecesFrom 0 text

theorem piecesFrom_nil (start : Nat) : piecesFrom start [] = [] := by
  rw [piecesFrom]

theorem piecesFrom_blank {c : Char} (h : isBlank c = true) (start : Nat) (rest : List Char) :
    piecesFrom start (c :: rest) = piecesFrom (start + 1) rest := by
  rw [piecesFrom, if_pos h]

end SlotCalc.Text
