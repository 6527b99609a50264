namespace SlotCalc.Toml

def isTomlBlank (c : Char) : Bool := c = ' ' || c = '\t'

def isBlankOrBreak (c : Char) : Bool := isTomlBlank c || c = '\n'

/-- Control characters, which stand neither in strings nor in comments; tabs may. -/
def isControl (c : Char) : Bool := (c.toNat < 0x20 || c = '\x7f') && c ≠ '\t'

def skipBlanks (text : List Char) : List Char := text.dropWhile isTomlBlank

def skipComment? : List Char → Option (List Char)
  | '#' :: rest =>
    if (rest.takeWhile (· ≠ '\n')).any isControl then none else some (rest.dropWhile (· ≠ '\n'))
  | text => some text

def after? (word : String) (text : List Char) : Option (List Char) :=
  if word.toList.isPrefixOf text then some (text.drop word.length) else none

/-- What was read at the beginning of a text, and the text after it. -/
abbrev Read (α : Type) := Option (α × List Char)

def pushed (c : Char) (r : Read (List Char)) : Read (List Char) :=
  r.map fun r => (c :: r.1, r.2)

def hexValue? (c : Char) : Option Nat :=
  if '0' ≤ c ∧ c ≤ '9' then some (c.toNat - '0'.toNat)
  else if 'a' ≤ c ∧ c ≤ 'f' then some (c.toNat - 'a'.toNat + 10)
  else if 'A' ≤ c ∧ c ≤ 'F' then some (c.toNat - 'A'.toNat + 10)
  else none

def scalar? (digits : List Char) : Option Char := do
  let values ← digits.mapM hexValue?
  let n := values.foldl (fun n d => 16 * n + d) 0
  if n.isValidChar then some (Char.ofNat n) else none

def escape? : Char → Option Char
  | 'b' => some '\x08'
  | 't' => some '\t'
  | 'n' => some '\n'
  | 'f' => some '\x0c'
  | 'r' => some '\r'
  | '"' => some '"'
  | '\\' => some '\\'
  | _ => none

def escaped? : List Char → Read Char
  | 'u' :: a :: b :: c :: d :: rest => (scalar? [a, b, c, d]).map (·, rest)
  | 'U' :: a :: b :: c :: d :: e :: f :: g :: h :: rest =>
    (scalar? [a, b, c, d, e, f, g, h]).map (·, rest)
  | c :: rest => (escape? c).map (·, rest)
  | [] => none

theorem length_escaped?_lt {text rest : List Char} {c : Char} (h : escaped? text = some (c, rest)) :
    rest.length < text.length := by
  unfold escaped? at h
  split at h <;> simp only [Option.map_eq_some_iff, Prod.mk.injEq, reduceCtorEq] at h
  all_goals
    obtain ⟨_, _, _, rfl⟩ := h
    simp only [List.length_cons]
    omega

def basicString : List Char → Read (List Char)
  | [] => none
  | c :: rest =>
    if c = '"' then some ([], rest)
    else if c = '\\' then
      match _h : escaped? rest with
      | some (e, more) => pushed e (basicString more)
      | none => none
    else if isControl c then none
    else pushed c (basicString rest)
termination_by text => text.length
decreasing_by
  · have := length_escaped?_lt _h
    simp only [List.length_cons]
    omega
  · simp

def literalString : List Char → Read (List Char)
  | [] => none
  | c :: rest =>
    if c = '\'' then some ([], rest)
    else if isControl c then none
    else pushed c (literalString rest)

/-- Up to two quotes right after the closing ones belong to a string over several lines. -/
def closing (quote : Char) : List Char → List Char × List Char
  | a :: b :: rest =>
    if a = quote then if b = quote then ([a, b], rest) else ([a], b :: rest)
    else ([], a :: b :: rest)
  | [a] => if a = quote then ([a], []) else ([], [a])
  | [] => ([], [])

def isTripled (quote : Char) (text : List Char) : Bool := text.take 3 = [quote, quote, quote]

def skipFirstBreak : List Char → List Char
  | '\n' :: rest => rest
  | text => text

/-- What follows a backslash at the end of a line: blanks up to the line break and then all
blanks and line breaks are left out. -/
def continuation? (text : List Char) : Option (List Char) :=
  match skipBlanks text with
  | '\n' :: rest => some (rest.dropWhile isBlankOrBreak)
  | _ => none

theorem length_continuation?_lt {text rest : List Char} (h : continuation? text = some rest) :
    rest.length < text.length := by
  unfold continuation? at h
  split at h
  next more hm =>
    obtain rfl : more.dropWhile isBlankOrBreak = rest := by simpa using h
    have h₁ : (skipBlanks text).length ≤ text.length := (List.dropWhile_suffix _).length_le
    have h₂ : (more.dropWhile isBlankOrBreak).length ≤ more.length :=
      (List.dropWhile_suffix _).length_le
    rw [hm, List.length_cons] at h₁
    omega
  next => simp at h

def basicBlock : List Char → Read (List Char)
  | [] => none
  | c :: rest =>
    if isTripled '"' (c :: rest) then some (closing '"' (rest.drop 2))
    else if c = '\\' then
      match _h : continuation? rest with
      | some more => basicBlock more
      | none =>
        match _h' : escaped? rest with
        | some (e, more) => pushed e (basicBlock more)
        | none => none
    else if isControl c ∧ c ≠ '\n' then none
    else pushed c (basicBlock rest)
termination_by text => text.length
decreasing_by
  · have := length_continuation?_lt _h
    simp only [List.length_cons]
    omega
  · have := length_escaped?_lt _h'
    simp only [List.length_cons]
    omega
  · simp

def literalBlock : List Char → Read (List Char)
  | [] => none
  | c :: rest =>
    if isTripled '\'' (c :: rest) then some (closing '\'' (rest.drop 2))
    else if isControl c ∧ c ≠ '\n' then none
    else pushed c (literalBlock rest)

def string? : List Char → Read (List Char)
  | '"' :: rest =>
    if isTripled '"' ('"' :: rest) then basicBlock (skipFirstBreak (rest.drop 2))
    else basicString rest
  | '\'' :: rest =>
    if isTripled '\'' ('\'' :: rest) then literalBlock (skipFirstBreak (rest.drop 2))
    else literalString rest
  | _ => none

end SlotCalc.Toml
