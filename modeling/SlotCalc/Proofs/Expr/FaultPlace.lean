import SlotCalc.Proofs.Expr.Brackets
import SlotCalc.Proofs.Text.Caret
import SlotCalc.Proofs.Token.RoundTrip

namespace SlotCalc.Expr

open Text (OnOneLine caretLine linesOf onOneLine_append pointed)
open Token (joined)

/-- In the joined tokens, those from `index` on begin in this column. -/
def BeginsAt (tokens : List Token) (index column : Nat) : Prop :=
  ∃ front, joined tokens = front ++ joined (tokens.drop index) ∧ front.length = column

namespace Fault

/-- Where the caret stands for a token that comes after the given ones. -/
def columnAfter (before : List Token) : Nat :=
  (joined before).length + if before.isEmpty then 0 else 1

theorem report_eq_pointed (reason : String) (tokens : List Token) (index : Nat) :
    report reason tokens index = pointed ("Parser error: " ++ reason) (joined tokens)
      (columnAfter (tokens.take index)) := by
  rw [Text.pointed_eq, caretLine]
  unfold report columnAfter
  simp only [String.append_assoc]

end Fault

section
variable {tokens : List Token} {line : String}

theorem beginsAt_append (before : List Token) {after : List Token} (h : after ≠ []) :
    BeginsAt (before ++ after) before.length (Fault.columnAfter before) := by
  rw [BeginsAt, List.drop_left]
  cases before with
  | nil => exact ⟨"", (String.empty_append).symm, rfl⟩
  | cons t more =>
    refine ⟨joined (t :: more) ++ " ", ?_, ?_⟩
    · rw [joined, List.map_append, String.intercalate_append_of_ne_nil (by simp) (by simpa using h)]
      rfl
    · rw [String.length_append]
      rfl

theorem beginsAt_of_lt {index : Nat} (h : index < tokens.length) :
    BeginsAt tokens index (Fault.columnAfter (tokens.take index)) := by
  have hne : tokens.drop index ≠ [] := by
    rw [Ne, List.drop_eq_nil_iff]
    omega
  have hbegins := beginsAt_append (tokens.take index) hne
  rwa [List.take_append_drop, List.length_take, Nat.min_eq_left (Nat.le_of_lt h)] at hbegins

theorem BeginsAt.lexeme_prefix {index column : Nat} {t : Token} (h : BeginsAt tokens index column)
    (ht : tokens[index]? = some t) : t.lexeme.toList <+: (joined tokens).toList.drop column := by
  obtain ⟨front, hjoined, hlength⟩ := h
  obtain ⟨hindex, hget⟩ := List.getElem?_eq_some_iff.1 ht
  rw [hjoined, String.toList_append, ← hlength, ← String.length_toList, List.drop_left,
    List.drop_eq_getElem_cons hindex, hget]
  cases htail : tokens.drop (index + 1) with
  | nil => simp [joined]
  | cons u more => simp [joined]

theorem onOneLine_joined (h : ∀ t ∈ tokens, t.IsSpelt) : OnOneLine (joined tokens).toList := by
  induction tokens with
  | nil => decide
  | cons t more ih =>
    obtain ⟨ht, hmore⟩ := List.forall_mem_cons.1 h
    have hlexeme := Text.onOneLine_of_unbroken ht.unbroken
    cases more with
    | nil => simpa [joined] using hlexeme
    | cons u rest =>
      have hrest := ih hmore
      rw [joined, List.map_cons, List.map_cons, String.intercalate_cons_cons, String.toList_append,
        String.toList_append, onOneLine_append, onOneLine_append]
      exact ⟨⟨hlexeme, by decide⟩, hrest⟩

theorem onOneLine_header (cause : Fault.Cause) :
    OnOneLine ("Parser error: " ++ cause.reason).toList := by
  have hlabel (found : Token.Kind) : OnOneLine found.label.toList := by
    unfold Token.Kind.label
    split <;> decide
  rw [String.toList_append, onOneLine_append]
  refine ⟨by decide, ?_⟩
  have hfound (text : String) (found : Token.Kind) (h : OnOneLine text.toList) :
      OnOneLine (text ++ found.label).toList := by
    rw [String.toList_append, onOneLine_append]
    exact ⟨h, hlabel found⟩
  cases cause with
  | unclosed | endOfInput | tooDeep => decide +kernel
  | unexpected found => exact hfound "Operand expected, found " found (by decide +kernel)
  | trailing found =>
    exact hfound "Expression is complete, found extra " found (by decide +kernel)

/-- The pass finds fault with a token or an open bracket, or the tokens end too early. -/
theorem Scan.run_error {scan : Scan} {index : Nat} {kinds : List Token.Kind} {e : Fault}
    (hbelow : scan.Below index) (h : scan.run index kinds = .error e) :
    e.index < index + kinds.length ∨
      (e.index = index + kinds.length ∧ e.cause = .endOfInput) := by
  induction kinds generalizing scan index with
  | nil =>
    obtain ⟨opened, operandNext⟩ := scan
    cases operandNext with
    | true =>
      cases h
      exact .inr ⟨rfl, rfl⟩
    | false =>
      cases opened with
      | nil => cases h
      | cons bracket outer =>
        cases h
        exact .inl (hbelow bracket (List.mem_cons_self ..))
  | cons kind more ih =>
    rw [run] at h
    rw [List.length_cons]
    cases hstep : scan.step index kind with
    | error e' =>
      rw [hstep] at h
      cases h
      left
      -- At the token itself, or at a bracket that was opened before it.
      rcases step_error_index hstep with hindex | hopen
      · omega
      · have := hbelow _ hopen
        omega
    | ok next =>
      rw [hstep] at h
      have hlater := ih (hbelow.step hstep) h
      rwa [Nat.add_assoc, Nat.add_comm 1] at hlater

theorem evaluate_error_place {s : Store} {e : Fault} (h : evaluate s tokens = .error e) :
    e.index < tokens.length ∨ (e.index = tokens.length ∧ e.cause = .endOfInput) := by
  have hbelow : Scan.Below {} 0 := List.forall_mem_nil _
  have hplace := Scan.run_error hbelow (evaluate_eq_error_iff.1 h)
  rwa [Nat.zero_add, List.length_map] at hplace

end

/-- A report is a header, the joined tokens and a caret. For each position among the tokens the
caret is in the column where the joined tokens from there on begin, with the lexeme of the first of
them. The report of a line has three lines and no other line ends, and its position is one among the
tokens or else their end: then an operand is missing, and the caret is where a further token would
begin. -/
theorem report_points_at_token :
    (∀ (reason : String) (tokens : List Token) (index : Nat) (h : index < tokens.length),
      ∃ column, Fault.report reason tokens index =
          pointed ("Parser error: " ++ reason) (joined tokens) column ∧
        BeginsAt tokens index column ∧
        tokens[index].lexeme.toList <+: (joined tokens).toList.drop column) ∧
    ∀ (line : String) (tokens : List Token) (s : Store) (e : Fault),
      Token.ofLine line = .ok tokens → evaluate s tokens = .error e →
      ∃ column,
        let header := "Parser error: " ++ e.cause.reason
        linesOf (e.message tokens) = [header, joined tokens, caretLine column] ∧
        (∀ shown ∈ linesOf (e.message tokens), OnOneLine shown.toList) ∧
        e.message tokens = pointed header (joined tokens) column ∧
        if h : e.index < tokens.length then
          BeginsAt tokens e.index column ∧
            tokens[e.index].lexeme.toList <+: (joined tokens).toList.drop column
        else
          e.index = tokens.length ∧ e.cause = .endOfInput ∧ (tokens = [] → column = 0) ∧
            ∀ t : Token, BeginsAt (tokens ++ [t]) tokens.length column := by
  constructor
  · intro reason tokens index h
    have hbegins := beginsAt_of_lt h
    exact ⟨_, Fault.report_eq_pointed reason tokens index, hbegins,
      hbegins.lexeme_prefix (List.getElem?_eq_getElem h)⟩
  · intro line tokens s e hline herror
    have hheader := onOneLine_header e.cause
    have hjoined := onOneLine_joined (Token.isSpelt_of_ofLine hline)
    have hlines := Text.linesOf_pointed (Text.lineFeed_not_mem hheader)
      (Text.lineFeed_not_mem hjoined) (Fault.columnAfter (tokens.take e.index))
    refine ⟨Fault.columnAfter (tokens.take e.index), ?_⟩
    intro header
    rw [Fault.message, Fault.report_eq_pointed, hlines]
    refine ⟨rfl, ?_, rfl, ?_⟩
    · have hcaret := Text.onOneLine_caretLine (Fault.columnAfter (tokens.take e.index))
      exact List.forall_mem_cons.2
        ⟨hheader, List.forall_mem_cons.2 ⟨hjoined, List.forall_mem_singleton.2 hcaret⟩⟩
    · split
      · rename_i h
        have hbegins := beginsAt_of_lt h
        exact ⟨hbegins, hbegins.lexeme_prefix (List.getElem?_eq_getElem h)⟩
      · rename_i h
        obtain ⟨hend, hcause⟩ := (evaluate_error_place herror).resolve_left h
        have htake : tokens.take e.index = tokens := by rw [hend, List.take_length]
        rw [htake]
        refine ⟨hend, hcause, ?_, fun t => beginsAt_append tokens (List.cons_ne_nil t [])⟩
        rintro rfl
        rfl

theorem report_points_at_token_missing :
    let tokens : List Token :=
      [{ kind := .opening, lexeme := "(" },
        { kind := .slot, lexeme := "memx", name := "x" },
        { kind := .operator .plus, lexeme := "+" }]
    let e : Fault := ⟨.endOfInput, 3⟩
    (∃ column, Fault.report "late" tokens 2 =
      pointed "Parser error: late" (joined tokens) column ∧ BeginsAt tokens 2 column) ∧
    (∃ column, (∀ t : Token, BeginsAt (tokens ++ [t]) 3 column) ∧
      e.message tokens = pointed "Parser error: Operand expected, found end of input" "( memx +" column) ∧
    e.message tokens =
      "Parser error: Operand expected, found end of input\n" ++ "( memx +\n" ++ "         ^" := by
  intro tokens e
  have hline : Token.ofLine "(\tmemx  +" = .ok tokens := by
    have hpieces : Text.pieces "(\tmemx  +".toList =
        [⟨0, "(".toList⟩, ⟨2, "memx".toList⟩, ⟨8, "+".toList⟩] := by decide +kernel
    rw [Token.ofLine, hpieces]
    rfl
  have herror : evaluate {} tokens = .error e := by
    rw [evaluate_eq_error_iff]
    rfl
  obtain ⟨hplace, hfault⟩ := report_points_at_token
  obtain ⟨column, hreport, hbegins, -⟩ := hplace "late" tokens 2 (by decide)
  obtain ⟨column', -, -, hmessage, hend⟩ := hfault _ tokens {} e hline herror
  rw [dif_neg (by decide)] at hend
  obtain ⟨-, -, -, hfurther⟩ := hend
  exact ⟨⟨column, hreport, hbegins⟩, ⟨column', hfurther, hmessage⟩, by decide +kernel⟩

end SlotCalc.Expr
