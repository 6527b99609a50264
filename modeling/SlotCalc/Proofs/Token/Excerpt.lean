import SlotCalc.Proofs.Text.Caret
import SlotCalc.Proofs.Token.Language

namespace SlotCalc.Malformed

open Text (OnOneLine Piece caretLine linesOf pieces pointed)
open Token (Readable)

/-- A part of a line, between what is cut off before it and after it. -/
structure Window (text : List Char) where
  before : List Char
  shown : List Char
  after : List Char
  line_eq : before ++ shown ++ after = text

def dotsFor (cut : List Char) : List Char := if cut = [] then [] else ['.', '.', '.']

namespace Window

variable {text : List Char}

def excerpt (w : Window text) : List Char := dotsFor w.before ++ w.shown ++ dotsFor w.after

/-- Where the character at `index` of the line stands in the excerpt. -/
def column (w : Window text) (index : Nat) : Nat :=
  (dotsFor w.before).length + (index - w.before.length)

def around (text : List Char) (index : Nat) : Window text where
  before := text.take (index - 15)
  shown := (text.take (index + 15)).drop (index - 15)
  after := text.drop (index + 15)
  line_eq := by
    have htake : text.take (index - 15) = (text.take (index + 15)).take (index - 15) := by
      rw [List.take_take, Nat.min_eq_left (by omega)]
    rw [htake, List.take_append_drop, List.take_append_drop]

theorem drop_column (w : Window text) {index : Nat}
    (h : index ≤ w.before.length + w.shown.length) : w.excerpt.drop (w.column index) =
      w.shown.drop (index - w.before.length) ++ dotsFor w.after := by
  rw [excerpt, column, List.append_assoc, List.drop_append, List.drop_of_length_le (by omega),
    List.nil_append, Nat.add_sub_cancel_left, List.drop_append_of_le_length (by omega)]

theorem drop_line (w : Window text) {index : Nat} (hle : w.before.length ≤ index)
    (h : index ≤ w.before.length + w.shown.length) :
    text.drop index = w.shown.drop (index - w.before.length) ++ w.after := by
  conv => lhs; rw [← w.line_eq]
  rw [List.append_assoc, List.drop_append, List.drop_of_length_le hle, List.nil_append,
    List.drop_append_of_le_length (by omega)]

theorem getElem?_column (w : Window text) {index : Nat} (hle : w.before.length ≤ index)
    (h : index < w.before.length + w.shown.length) :
    w.excerpt[w.column index]? = text[index]? := by
  have hne : w.shown.drop (index - w.before.length) ≠ [] := by
    rw [Ne, List.drop_eq_nil_iff]
    omega
  obtain ⟨c, rest, hrest⟩ := List.exists_cons_of_ne_nil hne
  rw [← List.head?_drop, ← List.head?_drop, w.drop_column (Nat.le_of_lt h),
    w.drop_line hle (Nat.le_of_lt h), hrest]
  rfl

theorem before_length_around {index : Nat} (h : index < text.length) :
    (around text index).before.length = index - 15 := by
  rw [around, List.length_take]
  omega

theorem shown_length_around (text : List Char) (index : Nat) : (around text index).shown.length =
    min text.length (index + 15) - (index - 15) := by
  rw [around, List.length_drop, List.length_take, Nat.min_comm]

theorem before_around_ne_nil {index : Nat} (h : index < text.length) :
    (around text index).before ≠ [] ↔ 0 < index - 15 := by
  rw [← List.length_pos_iff, before_length_around h]

theorem after_around_ne_nil (text : List Char) (index : Nat) :
    (around text index).after ≠ [] ↔ (index : Int) + 15 < text.length := by
  rw [around, Ne, List.drop_eq_nil_iff]
  omega

end Window

theorem ofList_dotsFor {cut : List Char} {p : Prop} [Decidable p] (h : cut ≠ [] ↔ p) :
    String.ofList (dotsFor cut) = if p then "..." else "" := by
  rw [dotsFor]
  by_cases hcut : cut = []
  · rw [if_pos hcut, if_neg (fun hp => h.2 hp hcut)]
  · rw [if_neg hcut, if_pos (h.1 hcut)]

theorem column_around {text : List Char} {index : Nat} (h : index < text.length) :
    ((index : Int) - (index - 15 : Nat) +
      (String.ofList (dotsFor (Window.around text index).before)).length).toNat =
        (Window.around text index).column index := by
  rw [Window.column, Window.before_length_around h, String.length_ofList]
  omega

theorem windowEnd_around (length index : Nat) :
    windowEnd length ((index : Int) + 15) = min length (index + 15) := by
  have hlast : ((index : Int) + 15).toNat = index + 15 := by omega
  rw [windowEnd, if_pos (by omega), hlast]

theorem report_eq_pointed (message : String) {line : String} {index : Nat}
    (h : index < line.toList.length) :
    report message line index = pointed ("[Tokenizer error] " ++ message)
      (String.ofList (Window.around line.toList index).excerpt)
      ((Window.around line.toList index).column index) := by
  have hfirst : ((index : Int) - 15).toNat = index - 15 := by omega
  have hshown : (line.toList.take (min line.toList.length (index + 15))).drop (index - 15) =
      (Window.around line.toList index).shown := by
    rw [Window.around, Nat.min_comm, ← List.take_eq_take_min]
  have hbefore := ofList_dotsFor (Window.before_around_ne_nil h)
  have hafter := ofList_dotsFor (Window.after_around_ne_nil line.toList index)
  rw [Text.pointed_eq, ← column_around h, caretLine, Window.excerpt, String.ofList_append,
    String.ofList_append]
  unfold report
  simp only [hfirst, windowEnd_around, hshown, hbefore, hafter, String.append_assoc]

/-- The report shows the part `w` of the line, with the caret under the character at `index`. -/
structure Shows (message line : String) (index : Nat) (w : Window line.toList) : Prop where
  length_le : w.shown.length ≤ 30
  before_le : w.before.length ≤ index
  lt_end : index < w.before.length + w.shown.length
  report_eq : report message line index = pointed ("[Tokenizer error] " ++ message)
    (String.ofList w.excerpt) (w.column index)
  same_character : w.excerpt[w.column index]? = line.toList[index]?

section
variable {line : String} {index : Nat}

theorem shows_around (message : String) (h : index < line.toList.length) :
    Shows message line index (Window.around line.toList index) := by
  have hbefore := Window.before_length_around h
  have hshown := Window.shown_length_around line.toList index
  have hle : (Window.around line.toList index).before.length ≤ index := by omega
  have hlt : index < (Window.around line.toList index).before.length +
      (Window.around line.toList index).shown.length := by omega
  refine ⟨?_, hle, hlt, report_eq_pointed message h, Window.getElem?_column _ hle hlt⟩
  omega

/-- From the caret on, fifteen characters are shown if the line has so many. -/
theorem prefix_drop_column {text : List Char} (hlt : index < line.toList.length)
    (h : text <+: line.toList.drop index) : text.take 15 <+:
      (Window.around line.toList index).excerpt.drop
        ((Window.around line.toList index).column index) := by
  have hshows := shows_around "" hlt
  have hbefore := Window.before_length_around hlt
  have hshown := Window.shown_length_around line.toList index
  have hdrop := Window.drop_line _ hshows.before_le (Nat.le_of_lt hshows.lt_end)
  have hlength := h.length_le
  rw [Window.drop_column _ (Nat.le_of_lt hshows.lt_end)]
  apply List.IsPrefix.trans _ (List.prefix_append _ _)
  apply List.prefix_of_prefix_length_le ((List.take_prefix 15 text).trans h)
  · rw [hdrop]
    exact List.prefix_append _ _
  · rw [List.length_drop] at hlength ⊢
    rw [List.length_take]
    omega

theorem lineFeed_not_mem_excerpt (w : Window line.toList) (h : '\n' ∉ line.toList) :
    '\n' ∉ w.excerpt := by
  have hdots (cut : List Char) : '\n' ∉ dotsFor cut := by
    rw [dotsFor]
    split <;> decide
  have hshown : '\n' ∉ w.shown := by
    intro hmem
    apply h
    rw [← w.line_eq]
    exact List.mem_append_left _ (List.mem_append_right _ hmem)
  simp [Window.excerpt, hdots, hshown]

theorem onOneLine_header (e : Malformed) :
    OnOneLine ("[Tokenizer error] " ++ e.reason).toList := by
  rw [reason, String.toList_append, String.toList_append, Text.onOneLine_append,
    Text.onOneLine_append]
  exact ⟨by decide, by decide, Text.onOneLine_quoted e.piece⟩

theorem start_lt_of_mem_pieces {text : List Char} {p : Piece} (h : p ∈ pieces text) :
    p.start < text.length := by
  obtain ⟨before, after, htext, hstart, hrun⟩ := Text.mem_piecesFrom_iff.1 h
  have hpos := List.length_pos_iff.2 hrun.ne_nil
  rw [htext, hstart, List.length_append, List.length_append]
  omega

end

/-- A report is a header, a part of the line and a caret, each on a line of its own. The part has at
most 30 characters, among them the one in question, with dots where something is cut off before or
after them, and the caret is in the column of this character. For a malformed piece, which is the
first of its line, this is where the piece begins, of which fifteen characters are shown if it has
so many; the header is one line whatever the piece holds. -/
theorem report_shows_place :
    (∀ (message line : String) (index : Nat), index < line.length →
      ∃ w, Shows message line index w) ∧
    ∀ (line : String) (e : Malformed), Token.ofLine line = .error e →
      ∃ before p after w, pieces line.toList = before ++ p :: after ∧
        (∀ q ∈ before, Readable q.text) ∧ ¬ Readable p.text ∧
        e = ⟨line, p.start, String.ofList p.text⟩ ∧
        e.message = report e.reason line p.start ∧ Shows e.reason line p.start w ∧
        p.text.take 15 <+: w.excerpt.drop (w.column p.start) ∧
        OnOneLine ("[Tokenizer error] " ++ e.reason).toList ∧
        ('\n' ∉ line.toList → linesOf e.message = ["[Tokenizer error] " ++ e.reason,
          String.ofList w.excerpt, caretLine (w.column p.start)]) := by
  constructor
  · intro message line index h
    rw [← String.length_toList] at h
    exact ⟨_, shows_around message h⟩
  · intro line e herror
    obtain ⟨before, p, after, hpieces, hbefore, hp, rfl⟩ := Token.ofLine_eq_error_iff.1 herror
    have hmem : p ∈ pieces line.toList := by simp [hpieces]
    have hlt := start_lt_of_mem_pieces hmem
    have hprefix := Text.prefix_drop_start_of_mem_pieces hmem
    have hshows := shows_around (reason ⟨line, p.start, String.ofList p.text⟩) hlt
    have hheader := onOneLine_header ⟨line, p.start, String.ofList p.text⟩
    refine ⟨before, p, after, _, hpieces, hbefore, hp, rfl, rfl, hshows,
      prefix_drop_column hlt hprefix, hheader, ?_⟩
    intro hline
    have hexcerpt := lineFeed_not_mem_excerpt (Window.around line.toList p.start) hline
    rw [message, hshows.report_eq]
    apply Text.linesOf_pointed (Text.lineFeed_not_mem hheader)
    rwa [String.toList_ofList]

theorem report_shows_place_at_sixteen :
    let line := "1 + 2 + 3 + 4 + 12345678901234567x"
    let e : Malformed := ⟨line, 16, "12345678901234567x"⟩
    (∃ w, Shows "late" line 16 w) ∧ (linesOf e.message).length = 3 ∧
      e.message = "[Tokenizer error] Not a number: '12345678901234567x'\n" ++
        "... + 2 + 3 + 4 + 123456789012345...\n" ++ "                  ^" := by
  intro line e
  have herror : Token.ofLine line = .error e := by
    have hpieces : pieces line.toList = [⟨0, "1".toList⟩, ⟨2, "+".toList⟩, ⟨4, "2".toList⟩,
        ⟨6, "+".toList⟩, ⟨8, "3".toList⟩, ⟨10, "+".toList⟩, ⟨12, "4".toList⟩, ⟨14, "+".toList⟩,
        ⟨16, "12345678901234567x".toList⟩] := by decide +kernel
    rw [Token.ofLine, hpieces]
    rfl
  obtain ⟨hplace, hpiece⟩ := report_shows_place
  obtain ⟨_, _, _, _, -, -, -, -, -, -, -, -, hlines⟩ := hpiece line e herror
  refine ⟨hplace "late" line 16 (by decide), ?_, by decide +kernel⟩
  rw [hlines (by decide)]
  rfl

end SlotCalc.Malformed
