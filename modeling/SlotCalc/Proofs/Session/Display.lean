import SlotCalc.Proofs.Decimal.ReadBack
import SlotCalc.Proofs.Session.Outcome
import SlotCalc.Proofs.Session.Shape
import SlotCalc.Proofs.Session.Tracking
import SlotCalc.Proofs.Token.Language

namespace SlotCalc

section
variable {c : Char} {rest : List Char}

theorem Numeral.decimal?_eq_none (hdigit : Text.digitValue? c = none) (hpoint : c ≠ '.')
    (negative : Bool) : decimal? negative (c :: rest) = none := by
  simp [decimal?, digitRun, digitsFrom, hdigit, fraction, hpoint]

theorem Token.not_readable_cons (h : c = 'e' ∨ c = 's') : ¬ Readable (c :: rest) := by
  have hdigit : Text.digitValue? c = none := by
    rcases h with rfl | rfl <;> decide
  have hpoint : c ≠ '.' := by
    rcases h with rfl | rfl <;> decide
  have hread : Numeral.read? (c :: rest) = none := by
    rcases h with rfl | rfl <;>
      simp [Numeral.read?, Numeral.unsigned?, Numeral.decimal?_eq_none hdigit hpoint,
        Numeral.word?]
  rintro (hsymbol | hmem | hnumeral)
  · rcases h with rfl | rfl <;> simp [symbols] at hsymbol
  · rcases h with rfl | rfl <;> simp at hmem
  · simp [hread] at hnumeral

/-- A line that can be read as tokens does not begin so, either. -/
theorem Token.head_of_ofLine {line : String} {tokens : List Token} (h : ofLine line = .ok tokens)
    (hc : c ∈ line.toList.head?) : c ≠ 'e' ∧ c ≠ 's' := by
  by_contra hletter
  have hletter' : c = 'e' ∨ c = 's' := by tauto
  have hblank : Text.isBlank c = false := by
    rcases hletter' with rfl | rfl <;> decide
  obtain ⟨rest, hline⟩ := List.head?_eq_some_iff.1 hc
  have hfirst : ⟨0, c :: rest.takeWhile (!Text.isBlank ·)⟩ ∈ Text.pieces line.toList := by
    rw [hline, Text.pieces, Text.piecesFrom, if_neg (by simp [hblank])]
    exact List.mem_cons_self ..
  exact not_readable_cons hletter' (exists_ofLine_eq_ok_iff.1 ⟨tokens, h⟩ _ hfirst)

end

section
variable {before before' run run' : List Char}

end

namespace Answer

def words : Answer → String
  | stored slot _ => "set memory" ++ slot ++ " equal"
  | evaluated line _ => line ++ " equal"

theorem toList_display (a : Answer) :
    a.display.toList = a.words.toList ++ ' ' :: (Decimal.shown a.value).toList := by
  cases a <;> simp [display, words, value]

end Answer

namespace Session

section
variable {config : Config} {state : State} {line : String} {answer : Answer}

theorem commandedSlot?_eq (line : String) :
    commandedSlot? line = (command? line).map Token.name := by
  rw [commandedSlot?, posting?_eq, Option.map_map]
  rfl

/-- An answer names the slot of the command that the line begins with, or repeats the line, which
begins neither as an error does nor as the answer to a command. -/
theorem answer_of_step (h : (step config state line).result = .ok answer) :
    (∃ slot value, commandedSlot? line = some slot ∧ answer = .stored slot value) ∨
      ∃ value, commandedSlot? line = none ∧ answer = .evaluated line value ∧
        ∀ c ∈ answer.display.toList.head?, c ≠ 'e' ∧ c ≠ 's' := by
  have houtcome := outcome_step config state line
  generalize step config state line = s at h houtcome
  cases houtcome with
  | stored command store hcommand haccumulate =>
    cases h
    refine .inl ⟨command.name, store.get command.name, ?_, rfl⟩
    rw [commandedSlot?_eq, hcommand]
    rfl
  | evaluated tokens value hcommand htokens hvalue =>
    cases h
    refine .inr ⟨value, ?_, rfl, ?_⟩
    · rw [commandedSlot?_eq, hcommand]
      rfl
    intro c hc
    rw [Answer.toList_display, Answer.words, String.toList_append] at hc
    cases hline : line.toList with
    | nil =>
      -- The line of an answer is not empty, but a blank would do as well.
      rw [hline] at hc
      obtain rfl : ' ' = c := by simpa using hc
      decide
    | cons first rest =>
      rw [hline] at hc
      obtain rfl : first = c := by simpa using hc
      exact Token.head_of_ofLine htokens (by rw [hline]; rfl)
  | full | malformed | faulty => cases h

theorem output_tells_result (config : Config) (state : State) (line : String) :
    let s := step config state line
    let output := (s.output line).toList
    ("error: ".toList <+: output ↔ ∃ reason, s.result = .error reason) ∧
    ("set memory".toList <+: output ↔
      ∃ slot value, commandedSlot? line = some slot ∧ s.result = .ok (.stored slot value)) ∧
    (¬ "error: ".toList <+: output → ¬ "set memory".toList <+: output →
      commandedSlot? line = none ∧ ∃ value, s.result = .ok (.evaluated line value)) := by
  intro s output
  -- The first characters tell the two beginnings apart.
  have herror (h : "error: ".toList <+: output) : output.head? = some 'e' := by
    obtain ⟨rest, hrest⟩ := h
    rw [← hrest]
    rfl
  have hset (h : "set memory".toList <+: output) : output.head? = some 's' := by
    obtain ⟨rest, hrest⟩ := h
    rw [← hrest]
    rfl
  cases hresult : s.result with
  | error reason =>
    have hprefix : "error: ".toList <+: output := by
      simp only [output, Step.output, hresult, String.toList_append, List.append_assoc]
      exact List.prefix_append _ _
    have hnot : ¬ "set memory".toList <+: output := fun h => by
      simpa [herror hprefix] using hset h
    refine ⟨iff_of_true hprefix ⟨reason, rfl⟩, iff_of_false hnot ?_, fun h => absurd hprefix h⟩
    rintro ⟨slot, value, -, ⟨⟩⟩
  | ok answer =>
    have houtput : output = answer.display.toList := by
      simp only [output, Step.output, hresult]
    rcases answer_of_step hresult with ⟨slot, value, hslot, rfl⟩ | ⟨value, hnone, rfl, hhead⟩
    · have hprefix : "set memory".toList <+: output := by
        simp only [houtput, Answer.display, String.toList_append, List.append_assoc]
        exact List.prefix_append _ _
      have hnot : ¬ "error: ".toList <+: output := fun h => by
        simpa [hset hprefix] using herror h
      refine ⟨iff_of_false hnot ?_, iff_of_true hprefix ⟨slot, value, hslot, rfl⟩,
        fun _ h => absurd hprefix h⟩
      rintro ⟨reason, ⟨⟩⟩
    · rw [← houtput] at hhead
      refine ⟨iff_of_false (fun h => (hhead _ (herror h)).1 rfl) ?_,
        iff_of_false (fun h => (hhead _ (hset h)).2 rfl) ?_, fun _ _ => ⟨hnone, value, rfl⟩⟩
      · rintro ⟨reason, ⟨⟩⟩
      · rintro ⟨slot, value, -, ⟨⟩⟩

end

end Session

end SlotCalc
