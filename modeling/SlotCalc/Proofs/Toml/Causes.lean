import SlotCalc.Toml.Sections

namespace SlotCalc.Toml

/-- The reading breaks down for one of two causes, if at all. -/
def BreaksKnown (r : Reading α) : Prop :=
  ∀ cause, r = .error (.broken cause) → cause = .integerTooLong ∨ cause = .nestingTooDeep

section
variable {r : Reading α} {f : α → Reading β}

theorem breaksKnown_ok (a : α) : BreaksKnown (.ok a) := by
  rintro cause ⟨⟩

theorem breaksKnown_invalid : BreaksKnown (.error (.reported {}) : Reading α) := by
  rintro cause ⟨⟩

theorem breaksKnown_orInvalid (a : Option α) : BreaksKnown (orInvalid a) := by
  cases a with
  | none => exact breaksKnown_invalid
  | some a => exact breaksKnown_ok a

theorem BreaksKnown.bind (hr : BreaksKnown r) (hf : ∀ a, BreaksKnown (f a)) :
    BreaksKnown (r >>= f) := by
  intro cause h
  cases r with
  | ok a => exact hf a cause h
  | error e =>
    obtain rfl : e = .broken cause := Except.error.inj h
    exact hr cause rfl

theorem breaksKnown_scalarValue (text : List Char) : BreaksKnown (scalarValue text) := by
  unfold scalarValue
  split
  · split
    · exact breaksKnown_ok _
    · rintro cause ⟨⟩
      exact .inl rfl
  · exact breaksKnown_orInvalid _

theorem breaksKnown_roomWithin (taken room : Nat) : BreaksKnown (roomWithin taken room) := by
  unfold roomWithin
  split
  · exact breaksKnown_ok _
  · rintro cause ⟨⟩
    exact .inr rfl

end

theorem breaksKnown_nested (fuel : Nat) :
    (∀ room text, BreaksKnown (value fuel room text)) ∧
    (∀ room done text, BreaksKnown (items fuel room done text)) ∧
    ∀ room closed done text, BreaksKnown (fields fuel room closed done text) := by
  -- The three readers call one another with less fuel, so the induction is for all of them at once.
  induction fuel with
  | zero =>
    refine ⟨fun room text => ?_, fun room done text => ?_, fun room closed done text => ?_⟩
    · rw [value]
      exact breaksKnown_invalid
    · rw [items]
      exact breaksKnown_invalid
    · rw [fields]
      exact breaksKnown_invalid
  | succ fuel ih =>
    obtain ⟨hvalue, hitems, hfields⟩ := ih
    refine ⟨fun room text => ?_, fun room done text => ?_, fun room closed done text => ?_⟩
    · unfold value
      split
      · refine (breaksKnown_roomWithin _ _).bind fun room => ?_
        refine (breaksKnown_orInvalid _).bind fun rest => ?_
        exact (hitems room [] rest).bind fun r => breaksKnown_ok _
      · refine (breaksKnown_roomWithin _ _).bind fun room => ?_
        split
        · exact breaksKnown_ok _
        · exact (hfields room [] [] _).bind fun r => breaksKnown_ok _
      · exact breaksKnown_scalarValue _
    · unfold items
      split
      · exact breaksKnown_ok _
      · refine (hvalue room _).bind fun r => ?_
        refine (breaksKnown_orInvalid _).bind fun rest => ?_
        split
        · exact breaksKnown_ok _
        · exact (breaksKnown_orInvalid _).bind fun rest => hitems room _ rest
        · exact breaksKnown_invalid
    · unfold fields
      refine (breaksKnown_orInvalid _).bind fun key => ?_
      refine (hvalue room _).bind fun r => ?_
      refine (breaksKnown_orInvalid _).bind fun done => ?_
      split
      · exact breaksKnown_ok _
      · exact hfields room _ done _
      · exact breaksKnown_invalid

theorem breaksKnown_statement (p : Progress) (text : List Char) :
    BreaksKnown (statement p text) := by
  unfold statement
  split
  · refine (breaksKnown_orInvalid _).bind fun r => ?_
    exact (breaksKnown_orInvalid _).bind fun p => breaksKnown_ok _
  · refine (breaksKnown_orInvalid _).bind fun r => ?_
    exact (breaksKnown_orInvalid _).bind fun p => breaksKnown_ok _
  · exact breaksKnown_ok _
  · refine (breaksKnown_orInvalid _).bind fun key => ?_
    refine ((breaksKnown_nested _).1 _ _).bind fun r => ?_
    exact (breaksKnown_orInvalid _).bind fun p => breaksKnown_ok _

theorem breaksKnown_statements (fuel : Nat) (p : Progress) (text : List Char) :
    BreaksKnown (statements fuel p text) := by
  induction fuel generalizing p text with
  | zero => exact breaksKnown_invalid
  | succ fuel ih =>
    unfold statements
    split
    · exact breaksKnown_ok _
    · exact ih p _
    · refine (breaksKnown_statement p _).bind fun r => ?_
      refine (breaksKnown_orInvalid _).bind fun rest => ?_
      split
      · exact breaksKnown_ok _
      · exact ih _ _
      · exact breaksKnown_invalid

theorem breaksKnown_document (text : String) : BreaksKnown (document text) :=
  (breaksKnown_statements _ {} _).bind fun p => breaksKnown_ok p.root

end SlotCalc.Toml
