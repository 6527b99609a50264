import SlotCalc.Proofs.Session.Tracking
import SlotCalc.Proofs.Text.Runs
import SlotCalc.Proofs.Token.Language

namespace SlotCalc.Session

inductive Sign
  | plus
  | minus
  deriving DecidableEq, Repr

namespace Sign

def symbol : Sign → Char
  | plus => '+'
  | minus => '-'

def kind : Sign → Token.Kind
  | plus => .slotPlus
  | minus => .slotMinus

def change (previous : Float) : Sign → Float
  | plus => previous
  | minus => -previous

end Sign

def slotText (name : String) : String := "mem" ++ name

def commandText (sign : Sign) (name : String) : String := slotText (name.push sign.symbol)

/-- The first piece of the line is the command for the slot. What follows it does not matter. -/
def BeginsWith (sign : Sign) (name line : String) : Prop :=
  ∃ lead rest, line.toList = lead ++ (commandText sign name).toList ++ rest ∧
    (∀ c ∈ lead, Text.isBlank c = true) ∧ (∀ c ∈ name.toList, Text.isBlank c = false) ∧
    ∀ c ∈ rest.head?, Text.isBlank c = true

def commandToken (sign : Sign) (name : String) : Token :=
  { kind := sign.kind, lexeme := commandText sign name, name }

section
variable {sign : Sign} {name line : String}

theorem toList_slotText (name : String) :
    (slotText name).toList = ['m', 'e', 'm'] ++ name.toList := by
  simp [slotText]

theorem toList_commandText (sign : Sign) (name : String) :
    (commandText sign name).toList = ['m', 'e', 'm'] ++ name.toList ++ [sign.symbol] := by
  simp [commandText, toList_slotText]

theorem commandText_ne_nil (sign : Sign) (name : String) : (commandText sign name).toList ≠ [] := by
  simp [toList_commandText]

theorem slotText_unbroken (h : ∀ c ∈ name.toList, Text.isBlank c = false) :
    ∀ c ∈ (slotText name).toList, Text.isBlank c = false := by
  have hlead : ∀ c ∈ ['m', 'e', 'm'], Text.isBlank c = false := Text.unbroken_of_all (by decide)
  rw [toList_slotText]
  exact List.forall_mem_append.2 ⟨hlead, h⟩

theorem commandText_unbroken (sign : Sign) (h : ∀ c ∈ name.toList, Text.isBlank c = false) :
    ∀ c ∈ (commandText sign name).toList, Text.isBlank c = false := by
  have hsign : Text.isBlank sign.symbol = false := by cases sign <;> decide
  apply slotText_unbroken
  rw [String.toList_push]
  exact List.forall_mem_append.2 ⟨h, List.forall_mem_singleton.2 hsign⟩

theorem spells_commandToken (sign : Sign) (name : String) :
    Token.Spells (commandText sign name).toList (commandToken sign name) := by
  have htext := toList_commandText sign name
  cases sign with
  | plus => simpa [commandToken, Sign.kind] using Token.Spells.slotPlus name.toList htext
  | minus => simpa [commandToken, Sign.kind] using Token.Spells.slotMinus name.toList htext

theorem delta_commandToken (sign : Sign) (name : String) (previous : Float) :
    delta (commandToken sign name) previous = sign.change previous := by
  cases sign <;> rfl

theorem BeginsWith.unbroken (h : BeginsWith sign name line) :
    ∀ c ∈ name.toList, Text.isBlank c = false := by
  obtain ⟨lead, rest, -, -, hname, -⟩ := h
  exact hname

theorem beginsWith_commandText (sign : Sign) (h : ∀ c ∈ name.toList, Text.isBlank c = false) :
    BeginsWith sign name (commandText sign name) :=
  ⟨[], [], by simp, by simp, h, by simp⟩

theorem beginsWith_of_all (lead rest : List Char)
    (hline : line.toList = lead ++ (commandText sign name).toList ++ rest)
    (hlead : lead.all Text.isBlank = true) (hname : name.toList.all (!Text.isBlank ·) = true)
    (hrest : rest.head?.all Text.isBlank = true) : BeginsWith sign name line := by
  refine ⟨lead, rest, hline, List.all_eq_true.1 hlead, Text.unbroken_of_all hname, ?_⟩
  simpa [Option.all_eq_true] using hrest

theorem BeginsWith.command? (h : BeginsWith sign name line) :
    command? line = some (commandToken sign name) := by
  obtain ⟨lead, rest, hline, hlead, hname, hrest⟩ := h
  rw [command?_eq, hline, Text.pieces, List.append_assoc, Text.piecesFrom_blanks_append hlead,
    Text.piecesFrom_run (commandText_ne_nil sign name) (commandText_unbroken sign hname) hrest,
    List.head?_cons, Option.bind_some, Token.spells_iff.1 (spells_commandToken sign name)]
  cases sign <;> rfl

theorem eq_commandToken {piece name : List Char}
    (h : piece = ['m', 'e', 'm'] ++ name ++ [sign.symbol]) :
    piece = (commandText sign (String.ofList name)).toList ∧
      { kind := sign.kind, lexeme := String.ofList piece, name := String.ofList name } =
        commandToken sign (String.ofList name) := by
  have hpiece : piece = (commandText sign (String.ofList name)).toList := by
    rw [toList_commandText, String.toList_ofList]
    exact h
  refine ⟨hpiece, ?_⟩
  rw [hpiece, String.ofList_toList]
  rfl

/-- A piece is a command only if it ends in a sign. -/
theorem exists_commandToken {piece : List Char} {t : Token} (h : Token.Spells piece t)
    (hcommand : t.kind.isCommand = true) :
    ∃ sign name, piece = (commandText sign name).toList ∧ t = commandToken sign name := by
  cases h with
  | slotPlus name h => exact ⟨.plus, String.ofList name, eq_commandToken h⟩
  | slotMinus name h => exact ⟨.minus, String.ofList name, eq_commandToken h⟩
  | operator | opening | closing | slot | number => cases hcommand

theorem exists_beginsWith {command : Token} (h : command? line = some command) :
    ∃ sign name, BeginsWith sign name line ∧ command = commandToken sign name := by
  rw [command?_eq] at h
  obtain hblank | ⟨lead, run, rest, hline, hlead, hne, hrun, hrest⟩ :=
    Text.blank_or_exists_run line.toList
  · rw [Text.pieces, Text.piecesFrom_blanks hblank] at h
    cases h
  · rw [hline, Text.pieces, List.append_assoc, Text.piecesFrom_blanks_append hlead,
      Text.piecesFrom_run hne hrun hrest, List.head?_cons, Option.bind_some,
      Option.filter_eq_some_iff] at h
    obtain ⟨hpiece, hcommand⟩ := h
    obtain ⟨sign, name, rfl, rfl⟩ := exists_commandToken (Token.spells_iff.2 hpiece) hcommand
    refine ⟨sign, name, ⟨lead, rest, hline, hlead, ?_, hrest⟩, rfl⟩
    intro c hc
    apply hrun
    simp [toList_commandText, hc]

/-- The command that the program finds is the one that the line begins with. -/
theorem command?_eq_none_iff : command? line = none ↔ ∀ sign name, ¬ BeginsWith sign name line := by
  constructor
  · intro h sign name hbegins
    rw [hbegins.command?] at h
    cases h
  · intro h
    cases hcommand : Session.command? line with
    | none => rfl
    | some command =>
      obtain ⟨sign, name, hbegins, -⟩ := exists_beginsWith hcommand
      exact absurd hbegins (h sign name)

end

end SlotCalc.Session
