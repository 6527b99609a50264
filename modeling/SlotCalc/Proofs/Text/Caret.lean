import SlotCalc.Proofs.Text.Quoted

namespace SlotCalc.Text

def caretLine (column : Nat) : String := String.ofList (List.replicate column ' ') ++ "^"

/-- The three lines of a report, with a line feed between one and the next. -/
def pointed (header shown : String) (column : Nat) : String :=
  "\n".intercalate [header, shown, caretLine column]

theorem pointed_eq (header shown : String) (column : Nat) :
    pointed header shown column = header ++ "\n" ++ shown ++ "\n" ++ caretLine column := by
  rw [pointed, String.intercalate_cons_cons, String.intercalate_cons_cons,
    String.intercalate_singleton]
  simp only [String.append_assoc]

def linesOf (text : String) : List String := (text.toList.splitOn '\n').map String.ofList

theorem linesOf_intercalate {lines : List String} (hne : lines ≠ [])
    (h : ∀ line ∈ lines, '\n' ∉ line.toList) : linesOf ("\n".intercalate lines) = lines := by
  have hsplit : (['\n'].intercalate (lines.map String.toList)).splitOn '\n' =
      lines.map String.toList := by
    apply List.splitOn_intercalate
    · exact List.forall_mem_map.2 h
    · simpa using hne
  rw [linesOf, String.toList_intercalate]
  show (List.splitOn '\n' (['\n'].intercalate (lines.map String.toList))).map String.ofList = lines
  rw [hsplit, List.map_map]
  simp [Function.comp_def]

theorem onOneLine_caretLine (column : Nat) : OnOneLine (caretLine column).toList := by
  rw [caretLine, String.toList_append, String.toList_ofList, onOneLine_append]
  constructor
  · intro c hc hblank
    exact List.eq_of_mem_replicate hc
  · decide

theorem lineFeed_not_mem {text : List Char} (h : OnOneLine text) : '\n' ∉ text :=
  fun hmem => (h.ne_lineEnd _ hmem).1 rfl

/-- A report has three lines if its parts have no line feeds. -/
theorem linesOf_pointed {header shown : String} (hheader : '\n' ∉ header.toList)
    (hshown : '\n' ∉ shown.toList) (column : Nat) :
    linesOf (pointed header shown column) = [header, shown, caretLine column] := by
  apply linesOf_intercalate (List.cons_ne_nil _ _)
  have hcaret := lineFeed_not_mem (onOneLine_caretLine column)
  simp [hheader, hshown, hcaret]

end SlotCalc.Text
