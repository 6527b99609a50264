import SlotCalc.Proofs.Expr.Evaluation
import SlotCalc.Proofs.Session.Answering
import SlotCalc.Proofs.Session.Course
import SlotCalc.Proofs.Token.RoundTrip

namespace SlotCalc

/-- No name of a slot has a blank in it. -/
def Store.Unbroken (s : Store) : Prop :=
  ∀ name ∈ s.names, ∀ c ∈ name.toList, Text.isBlank c = false

namespace Session

def EndsInSign (name : String) : Prop := ∃ sign : Sign, name.toList.getLast? = some sign.symbol

def slotToken (name : String) : Token := { kind := .slot, lexeme := slotText name, name }

section
variable {config config' : Config} {state state' : State} {line name : String} {sign : Sign}

theorem step_unbroken (h : state.store.Unbroken) :
    (step config state line).state.store.Unbroken := by
  intro name hname
  obtain hname | ⟨sign, hbegins⟩ := step_mem_names config state line hname
  · exact h name hname
  · exact hbegins.unbroken

theorem follow_unbroken (h : state.store.Unbroken) (lines : List String) :
    (follow config state lines).final.store.Unbroken := by
  induction lines generalizing state with
  | nil => exact h
  | cons line more ih =>
    by_cases hline : line = ""
    · subst hline
      exact h
    · rw [follow_cons hline]
      exact ih (step_unbroken h)

theorem run_unbroken (config : Config) (lines : List String) :
    (run config lines).final.store.Unbroken := by
  have hempty : (Store.empty config.maxSlots).Unbroken := by
    intro name hname
    cases hname
  rw [run_final]
  exact follow_unbroken hempty lines

/-- A name that ends in a sign makes a command for the name before the sign. -/
theorem exists_push_of_endsInSign (h : EndsInSign name) :
    ∃ (sign : Sign) (front : String), name = front.push sign.symbol := by
  obtain ⟨sign, hlast⟩ := h
  refine ⟨sign, String.ofList name.toList.dropLast, ?_⟩
  rw [← String.toList_inj, String.toList_push, String.toList_ofList]
  exact (List.dropLast_append_getLast? _ hlast).symm

theorem not_endsInSign_iff :
    ¬ EndsInSign name ↔ ∀ c ∈ name.toList.getLast?, c ≠ '+' ∧ c ≠ '-' := by
  constructor
  · intro h c hc
    constructor
    · rintro rfl
      exact h ⟨.plus, hc⟩
    · rintro rfl
      exact h ⟨.minus, hc⟩
  · rintro h ⟨sign, hlast⟩
    cases sign with
    | plus => exact (h _ hlast).1 rfl
    | minus => exact (h _ hlast).2 rfl

theorem not_endsInSign_of_spells {piece : List Char} {t : Token} (h : Token.Spells piece t)
    (ht : t.kind = .slot) : ¬ EndsInSign t.name := by
  rw [not_endsInSign_iff]
  cases h with
  | slot name hpiece hsign => rwa [String.toList_ofList]
  | operator | opening | closing | slotPlus | slotMinus | number => cases ht

theorem spells_slotToken (h : ¬ EndsInSign name) :
    Token.Spells (slotText name).toList (slotToken name) := by
  have hspells := Token.Spells.slot name.toList (toList_slotText name) (not_endsInSign_iff.1 h)
  simpa [slotToken] using hspells

theorem not_endsInSign_of_ofLine {tokens : List Token} (h : Token.ofLine line = .ok tokens) :
    ∀ t ∈ tokens, t.kind = .slot → ¬ EndsInSign t.name :=
  Token.forall_mem_of_forall₂ (P := fun _ => True) (Token.ofLine_eq_ok_iff.1 h)
    (fun _ _ => trivial) fun _ _ _ hspells => not_endsInSign_of_spells hspells

theorem pieces_slotText (hname : ∀ c ∈ name.toList, Text.isBlank c = false) :
    Text.pieces (slotText name).toList = [⟨0, (slotText name).toList⟩] := by
  apply Text.piecesFrom_unbroken _ (slotText_unbroken hname)
  simp [toList_slotText]

theorem step_slotText (config : Config) (state : State)
    (hname : ∀ c ∈ name.toList, Text.isBlank c = false) (h : ¬ EndsInSign name) :
    (step config state (slotText name)).result =
      .ok (.evaluated (slotText name) (state.store.get name)) := by
  have hspells := spells_slotToken h
  have hcommand : command? (slotText name) = none := by
    rw [command?_eq, pieces_slotText hname, List.head?_cons, Option.bind_some,
      Token.spells_iff.1 hspells]
    rfl
  have htokens : Token.ofLine (slotText name) = .ok [slotToken name] := by
    rw [Token.ofLine_eq_ok_iff, pieces_slotText hname, List.forall₂_cons]
    exact ⟨hspells, .nil⟩
  have houtcome : Outcome config state (slotText name) _ :=
    .evaluated _ _ hcommand htokens (Expr.evaluate_slot state.store rfl)
  rw [← houtcome.eq_step]
  rfl

theorem step_stores {answer : Answer} (h : BeginsWith sign name line)
    (hanswer : (step config state line).result = .ok answer) :
    answer = .stored name ((step config state line).state.store.get name) := by
  have hposts := posts_step config state h
  generalize step config state line = s at hposts hanswer
  obtain ⟨result, after, events⟩ := s
  dsimp only at hposts hanswer
  subst hanswer
  cases hposts with
  | stored store value hadds hvalue => rw [Store.get_of_mem hvalue]

/-- Slots whose names end in a sign have no part in what a line without a command comes to. -/
theorem step_result_congr
    (hagree : ∀ name, ¬ EndsInSign name → state.store.get name = state'.store.get name)
    (h : ∀ sign name, ¬ BeginsWith sign name line) :
    (step config state line).result = (step config' state' line).result := by
  have hcommand := command?_eq_none_iff.2 h
  simp only [step, hcommand, evaluateLine]
  cases htokens : Token.ofLine line with
  | error e => rfl
  | ok tokens =>
    -- The tokens do not depend on the store, and none of them reads a slot that may differ.
    have hvalue : Expr.evaluate state.store tokens = Expr.evaluate state'.store tokens :=
      Expr.evaluate_congr fun t ht hslot => hagree _ (not_endsInSign_of_ofLine htokens t ht hslot)
    simp only [hvalue]
    cases Expr.evaluate state'.store tokens <;> rfl

end

/-- No session has a slot with a blank in its name. Where a name does not end in a sign, the line
`mem<name>` has the value that a command for the slot has stored just before. Where it does, that
piece is a command for the name without the sign, and the slot has no part in what any formula comes
to: neither in its value nor in what is wrong with it. -/
theorem slots_written_and_read :
    (∀ (config : Config) (lines : List String), (run config lines).final.store.Unbroken) ∧
    (∀ name : String, (∀ c ∈ name.toList, Text.isBlank c = false) →
      (¬ EndsInSign name →
        ∀ (config : Config) (state : State) (sign : Sign) (line : String) (answer : Answer),
          BeginsWith sign name line → (step config state line).result = .ok answer →
          let after := (step config state line).state
          ∃ value, answer = .stored name value ∧ after.store.get name = value ∧
            ∀ config', (step config' after (slotText name)).result =
              .ok (.evaluated (slotText name) value)) ∧
      (EndsInSign name → ∃ (sign : Sign) (front : String), name = front.push sign.symbol ∧
        Token.ofPiece? (slotText name).toList =
          some { kind := sign.kind, lexeme := slotText name, name := front } ∧
        BeginsWith sign front (slotText name))) ∧
    ∀ (config config' : Config) (state state' : State) (line : String),
      (∀ name, ¬ EndsInSign name → state.store.get name = state'.store.get name) →
      (∀ sign name, ¬ BeginsWith sign name line) →
      (step config state line).result = (step config' state' line).result := by
  refine ⟨run_unbroken, ?_, fun _ _ _ _ _ => step_result_congr⟩
  intro name hname
  constructor
  · intro hsign config state sign line answer hbegins hanswer after
    refine ⟨_, step_stores hbegins hanswer, rfl, ?_⟩
    intro config'
    exact step_slotText config' after hname hsign
  · intro hsign
    obtain ⟨sign, front, rfl⟩ := exists_push_of_endsInSign hsign
    rw [String.toList_push] at hname
    have hfront := (List.forall_mem_append.1 hname).1
    exact ⟨sign, front, rfl, Token.spells_iff.1 (spells_commandToken sign front),
      beginsWith_commandText sign hfront⟩

theorem slots_written_and_read_two_signs :
    let state : State := ⟨{ slots := [("x++", 5)], names_nodup := by decide }, 3⟩
    let after := (step {} state "mem1+mem*- memx++").state
    (step {} after "mem1+mem*").result = .ok (.evaluated "mem1+mem*" (-3)) ∧
    (∃ (sign : Sign) (front : String), "x++" = front.push sign.symbol ∧
      BeginsWith sign front "memx++") ∧
    (step {} state "memx * 2 - memx++").result =
      (step {} (.initial {}) "memx * 2 - memx++").result := by
  intro state after
  have hbegins : BeginsWith .minus "1+mem*" "mem1+mem*- memx++" :=
    beginsWith_of_all [] " memx++".toList rfl rfl rfl rfl
  have hvalue : after.store.get "1+mem*" = -3 := by decide +kernel
  have hok : (step {} state "mem1+mem*- memx++").result.isOk = true := by decide +kernel
  obtain ⟨-, hnames, hcongr⟩ := slots_written_and_read
  have hunsigned : ¬ EndsInSign "1+mem*" := by
    rintro ⟨_ | _, hlast⟩ <;> exact absurd hlast (by decide)
  have hsigned : EndsInSign "x++" := ⟨.plus, by decide⟩
  obtain ⟨sign, front, hname, -, hcommand⟩ := (hnames _ (Text.unbroken_of_all rfl)).2 hsigned
  have hformula : ∀ sign name, ¬ BeginsWith sign name "memx * 2 - memx++" :=
    command?_eq_none_iff.1 (by decide +kernel)
  refine ⟨?_, ⟨sign, front, hname, hcommand⟩, hcongr {} {} state (.initial {}) _ ?_ hformula⟩
  · cases hanswer : (step {} state "mem1+mem*- memx++").result with
    | error reason =>
      rw [hanswer] at hok
      cases hok
    | ok answer =>
      obtain ⟨value, -, hstored, hread⟩ :=
        (hnames _ (Text.unbroken_of_all rfl)).1 hunsigned {} state .minus _ answer hbegins hanswer
      rw [← hvalue, hstored]
      exact hread {}
  · intro name hname
    have hne : name ≠ "x++" := by
      rintro rfl
      exact hname hsigned
    have hlookup : state.store.slots.lookup name = none := by
      simpa [List.lookup_eq_none_iff, state] using hne
    rw [Store.get, Store.get?, hlookup]
    rfl

end Session

end SlotCalc
