import Mathlib.Data.List.DropRight
import SlotCalc.Input

namespace SlotCalc

inductive LineEnd
  | lineFeed
  | carriageReturn
  | both
  deriving DecidableEq, Repr

namespace LineEnd

def text : LineEnd → String
  | lineFeed => "\n"
  | carriageReturn => "\r"
  | both => "\r\n"

def join (e : LineEnd) (lines : List String) : String := String.join (lines.map (· ++ e.text))

/-- The texts that lines may be written as: only a last line that is not empty may lack its end. -/
inductive Writes (e : LineEnd) : List String → String → Prop
  | ended (lines : List String) : Writes e lines (e.join lines)
  | unended (lines : List String) (last : String) (h : last ≠ "") :
    Writes e (lines ++ [last]) (e.join lines ++ last)

theorem toList_join_cons (e : LineEnd) (line : String) (more : List String) :
    (e.join (line :: more)).toList = line.toList ++ (e.text.toList ++ (e.join more).toList) := by
  simp [join, String.toList_join]

section
variable {e : LineEnd} {line text : String} {lines : List String}

theorem Writes.nil_eq (h : e.Writes [] text) : text = "" := by
  generalize hlines : ([] : List String) = lines at h
  cases h with
  | ended lines => rw [← hlines]; rfl
  | unended lines last => simp at hlines

theorem Writes.cons_cases (h : e.Writes (line :: lines) text) :
    (∃ more, e.Writes lines more ∧
      text.toList = line.toList ++ (e.text.toList ++ more.toList)) ∨
    lines = [] ∧ text = line := by
  generalize hall : line :: lines = all at h
  cases h with
  | ended all =>
    subst hall
    exact .inl ⟨e.join lines, .ended lines, toList_join_cons e line lines⟩
  | unended before last hlast =>
    cases before with
    | nil =>
      obtain ⟨rfl, rfl⟩ := List.cons.inj hall
      exact .inr ⟨rfl, by simp [join]⟩
    | cons first before =>
      obtain ⟨rfl, rfl⟩ := List.cons.inj hall
      refine .inl ⟨e.join before ++ last, .unended before last hlast, ?_⟩
      rw [String.toList_append, toList_join_cons, String.toList_append]
      simp only [List.append_assoc]

end

theorem lineFeed_not_mem_join {lines : List String} (h : ∀ line ∈ lines, '\n' ∉ line.toList) :
    '\n' ∉ (carriageReturn.join lines).toList := by
  simpa [join, text, String.toList_join] using h

end LineEnd

namespace Source

section
variable {c : Char} {line rest : List Char}

theorem splitLines_cons (hfeed : c ≠ '\n') (hreturn : c ≠ '\r') (rest : List Char) :
    splitLines (c :: rest) =
      (c :: (splitLines rest).headD []) :: (splitLines rest).tail := by
  rw [splitLines.eq_3 c rest fun _ h _ => hreturn h, if_neg (not_or.2 ⟨hfeed, hreturn⟩)]
  cases splitLines rest <;> rfl

/-- A carriage return counts as a line end of its own if no line feed follows. -/
theorem splitLines_end_append (e : LineEnd) (h : e = .carriageReturn → '\n' ∉ rest) :
    splitLines (e.text.toList ++ rest) = [] :: splitLines rest := by
  cases e with
  | lineFeed => rfl
  | both => rfl
  | carriageReturn =>
    have hnext : ∀ more, '\r' = '\r' → rest = '\n' :: more → False := by
      rintro more - rfl
      exact h rfl List.mem_cons_self
    exact (splitLines.eq_3 '\r' rest hnext).trans (if_pos (.inr rfl))

theorem splitLines_line_append (e : LineEnd) (hline : ∀ c ∈ line, c ≠ '\n' ∧ c ≠ '\r')
    (h : e = .carriageReturn → '\n' ∉ rest) :
    splitLines (line ++ (e.text.toList ++ rest)) = line :: splitLines rest := by
  induction line with
  | nil => exact splitLines_end_append e h
  | cons c line ih =>
    obtain ⟨⟨hfeed, hreturn⟩, hmore⟩ := List.forall_mem_cons.1 hline
    rw [List.cons_append, splitLines_cons hfeed hreturn, ih hmore]
    rfl

theorem splitLines_unended (hline : ∀ c ∈ line, c ≠ '\n' ∧ c ≠ '\r') (h : line ≠ []) :
    splitLines line = [line] := by
  induction line with
  | nil => exact absurd rfl h
  | cons c line ih =>
    obtain ⟨⟨hfeed, hreturn⟩, hmore⟩ := List.forall_mem_cons.1 hline
    rw [splitLines_cons hfeed hreturn]
    by_cases hlast : line = []
    · rw [hlast]
      rfl
    · rw [ih hmore hlast]
      rfl

end

theorem splitLines_join_append (e : LineEnd) {lines : List String} {rest : List Char}
    (hlines : ∀ line ∈ lines, ∀ c ∈ line.toList, c ≠ '\n' ∧ c ≠ '\r') (hrest : '\n' ∉ rest) :
    splitLines ((e.join lines).toList ++ rest) = lines.map String.toList ++ splitLines rest := by
  induction lines with
  | nil => rfl
  | cons line more ih =>
    obtain ⟨hline, hmore⟩ := List.forall_mem_cons.1 hlines
    have hnext : e = .carriageReturn → '\n' ∉ (e.join more).toList ++ rest := by
      rintro rfl hmem
      obtain hmem | hmem := List.mem_append.1 hmem
      · exact LineEnd.lineFeed_not_mem_join (fun line h hfeed => (hmore line h _ hfeed).1 rfl) hmem
      · exact hrest hmem
    rw [LineEnd.toList_join_cons, List.append_assoc, List.append_assoc,
      splitLines_line_append e hline hnext, ih hmore]
    rfl

theorem lines_pipe_of_writes {e : LineEnd} {lines : List String} {text : String}
    (hlines : ∀ line ∈ lines, ∀ c ∈ line.toList, c ≠ '\n' ∧ c ≠ '\r') (h : e.Writes lines text) :
    (pipe text).lines = lines := by
  have hback : ∀ lines : List String, (lines.map String.toList).map String.ofList = lines := by
    simp [Function.comp_def]
  cases h with
  | ended =>
    have hsplit := splitLines_join_append e hlines List.not_mem_nil
    rw [List.append_nil] at hsplit
    rw [Source.lines, hsplit, splitLines, List.append_nil, hback]
  | unended lines last hlast =>
    obtain ⟨hlines, hline⟩ := List.forall_mem_append.1 hlines
    have hline := hline last List.mem_cons_self
    have hfeed : '\n' ∉ last.toList := fun hmem => (hline _ hmem).1 rfl
    have hne : last.toList ≠ [] := fun h => hlast (String.toList_eq_nil_iff.1 h)
    rw [Source.lines, String.toList_append, splitLines_join_append e hlines hfeed,
      splitLines_unended hline hne, List.map_append, hback]
    simp

/-- A text as it is read: each line end has become a line feed. -/
def translate : List Char → List Char
  | [] => []
  | '\r' :: '\n' :: rest => '\n' :: translate rest
  | c :: rest => (if c = '\r' then '\n' else c) :: translate rest

/-- The text up to the first line feed, which is part of it, and the text after that. -/
def readLine : List Char → List Char × List Char
  | [] => ([], [])
  | c :: rest =>
    if c = '\n' then ([c], rest)
    else
      let (line, more) := readLine rest
      (c :: line, more)

def strip (line : List Char) : List Char := line.rdropWhile fun c => c = '\n' ∨ c = '\r'

theorem strip_cons {c : Char} (hfeed : c ≠ '\n') (hreturn : c ≠ '\r') (line : List Char) :
    strip (c :: line) = c :: strip line := by
  simp only [strip, List.rdropWhile, List.reverse_cons, List.dropWhile_append]
  split
  · rename_i h
    rw [List.isEmpty_iff.1 h]
    simp [hfeed, hreturn]
  · simp

theorem readLine_append (text : List Char) : (readLine text).1 ++ (readLine text).2 = text := by
  induction text with
  | nil => rfl
  | cons c rest ih =>
    simp only [readLine]
    split
    · rfl
    · exact congrArg (c :: ·) ih

theorem readLine_translate {text : List Char} (h : text ≠ []) :
    (readLine (translate text)).1 ≠ [] ∧ ∃ rest, (readLine (translate text)).2 = translate rest ∧
      splitLines text = strip (readLine (translate text)).1 :: splitLines rest := by
  have hend : strip ['\n'] = [] := by decide
  -- By the line ends of the text: a carriage return with its line feed, one of the two alone, or
  -- none.
  induction text using translate.induct with
  | case1 => exact absurd rfl h
  | case2 rest =>
    refine ⟨List.cons_ne_nil _ _, rest, ?_⟩
    simp [translate, readLine, hend, splitLines]
  | case3 c rest hnext ih =>
    by_cases hc : c = '\n' ∨ c = '\r'
    · have hfeed : (if c = '\r' then '\n' else c) = '\n' := by
        obtain rfl | rfl := hc <;> rfl
      rw [translate.eq_3 c rest hnext, splitLines.eq_3 c rest hnext, hfeed]
      refine ⟨List.cons_ne_nil _ _, rest, ?_⟩
      simp [readLine, hend, hc]
    · obtain ⟨hfeed, hreturn⟩ := not_or.1 hc
      rw [translate.eq_3 c rest hnext, if_neg hreturn, splitLines_cons hfeed hreturn]
      simp only [readLine, if_neg hfeed, strip_cons hfeed hreturn]
      refine ⟨List.cons_ne_nil _ _, ?_⟩
      by_cases hrest : rest = []
      · subst hrest
        exact ⟨[], rfl, rfl⟩
      · obtain ⟨-, later, hlater, hsplit⟩ := ih hrest
        refine ⟨later, hlater, ?_⟩
        rw [hsplit]
        rfl

end Source

end SlotCalc
