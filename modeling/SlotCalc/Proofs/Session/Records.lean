import SlotCalc.Proofs.Session.Answering
import SlotCalc.Proofs.Session.Display
import SlotCalc.Proofs.Session.Shape

namespace SlotCalc

def Event.createdSlot? : Event → Option String
  | created slot => some slot
  | ignored .. | changed .. | evaluated .. | rejected .. | inputFailed .. => none

namespace Session

/-- What is said before anything is done: how many pieces after a command are not read. -/
inductive Announces (line : String) : List Event → Prop
  | ignored (sign : Sign) (name : String) (first next : Text.Piece) (more : List Text.Piece)
    (hbegins : BeginsWith sign name line)
    (hpieces : Text.pieces line.toList = first :: next :: more) :
    Announces line [.ignored (more.length + 1) (commandText sign name)]
  | nothing (h : ∀ sign name first next more, BeginsWith sign name line →
      Text.pieces line.toList ≠ first :: next :: more) : Announces line []

/-- What is said about the outcome. -/
inductive Reports (state : State) (line : String) :
    Except Rejection Answer → State → List Event → Prop
  | rejected (reason : Rejection) (after : State) :
    Reports state line (.error reason) after [.rejected line reason]
  | evaluated (value : Float) (after : State) (h : ∀ sign name, ¬ BeginsWith sign name line) :
    Reports state line (.ok (.evaluated line value)) after [.evaluated line value]
  | created (sign : Sign) (name : String) (value : Float) (after : State)
    (hbegins : BeginsWith sign name line) (hnew : name ∉ state.store.names)
    (hvalue : (name, value) ∈ after.store.slots) :
    Reports state line (.ok (.stored name value)) after
      [.created name, .changed name (sign.change state.previous) value]
  | changed (sign : Sign) (name : String) (value : Float) (after : State)
    (hbegins : BeginsWith sign name line) (hold : name ∈ state.store.names)
    (hvalue : (name, value) ∈ after.store.slots) :
    Reports state line (.ok (.stored name value)) after
      [.changed name (sign.change state.previous) value]

/-- All records of a line. -/
def Records (state : State) (line : String) (result : Except Rejection Answer) (after : State)
    (events : List Event) : Prop :=
  ∃ announced reported, Announces line announced ∧ Reports state line result after reported ∧
    events = announced ++ reported

def isError (output : String) : Bool := "error: ".toList.isPrefixOf output.toList

section
variable {config : Config} {state : State} {line : String} {lines : List String} {command : Token}

theorem announces_ignoredEvents (h : command? line = some command) :
    Announces line (ignoredEvents line command) := by
  obtain ⟨sign, name, hbegins, rfl⟩ := exists_beginsWith h
  unfold ignoredEvents
  rcases hpieces : Text.pieces line.toList with _ | ⟨first, _ | ⟨next, more⟩⟩
  · exact .nothing fun _ _ _ _ _ _ => by simp [hpieces]
  · exact .nothing fun _ _ _ _ _ _ => by simp [hpieces]
  · exact .ignored sign name first next more hbegins hpieces

theorem announces_nil (h : command? line = none) : Announces line [] :=
  .nothing fun sign name _ _ _ hbegins => absurd hbegins (command?_eq_none_iff.1 h sign name)

theorem step_records (config : Config) (state : State) (line : String) :
    let s := step config state line
    Records state line s.result s.state s.events := by
  have houtcome := outcome_step config state line
  generalize step config state line = s at houtcome
  cases houtcome with
  | stored command store hcommand haccumulate =>
    have hannounces := announces_ignoredEvents hcommand
    obtain ⟨sign, name, hbegins, rfl⟩ := exists_beginsWith hcommand
    have hvalue := (Store.adds_iff.2 haccumulate).mem_get
    refine ⟨_, _, hannounces, ?_, List.append_assoc _ _ _⟩
    rw [delta_commandToken]
    by_cases hold : state.store.contains (commandToken sign name).name = true
    · rw [if_pos hold]
      exact .changed sign name _ _ hbegins (Store.contains_iff.1 hold) hvalue
    · rw [if_neg hold]
      exact .created sign name _ _ hbegins (mt Store.contains_iff.2 hold) hvalue
  | full command e hcommand =>
    exact ⟨_, _, announces_ignoredEvents hcommand, .rejected _ _, rfl⟩
  | evaluated tokens value hcommand =>
    exact ⟨_, _, announces_nil hcommand, .evaluated _ _ (command?_eq_none_iff.1 hcommand), rfl⟩
  | malformed _ hcommand | faulty _ _ hcommand =>
    exact ⟨_, _, announces_nil hcommand, .rejected _ _, rfl⟩

theorem Announces.createdSlots {events : List Event} (h : Announces line events) :
    events.filterMap Event.createdSlot? = [] := by
  cases h <;> rfl

theorem Announces.warnings {events : List Event} (h : Announces line events) :
    events.countP (·.level = .warning) = 0 := by
  cases h <;> rfl

theorem Records.warnings {result : Except Rejection Answer} {after : State} {events : List Event}
    (h : Records state line result after events) :
    events.countP (·.level = .warning) = (!result.isOk).toNat := by
  obtain ⟨announced, reported, hannounces, hreports, rfl⟩ := h
  rw [List.countP_append, hannounces.warnings]
  cases hreports <;> rfl

theorem step_names (config : Config) (state : State) (line : String) :
    let s := step config state line
    s.state.store.names = state.store.names ++ s.events.filterMap Event.createdSlot? := by
  have houtcome := outcome_step config state line
  generalize step config state line = s at houtcome
  cases houtcome with
  | stored command store hcommand haccumulate =>
    have hnames := (Store.adds_iff.2 haccumulate).names_eq
    simp only [List.filterMap_append, (announces_ignoredEvents hcommand).createdSlots, hnames]
    by_cases hold : state.store.contains command.name = true
    · rw [if_pos hold, if_pos (Store.contains_iff.1 hold)]
      rfl
    · rw [if_neg hold, if_neg (mt Store.contains_iff.2 hold)]
      rfl
  | full command e hcommand =>
    have hannounced := (announces_ignoredEvents hcommand).createdSlots
    simp [Step.refused, hannounced, Event.createdSlot?]
  | evaluated | malformed | faulty => simp [Step.refused, Event.createdSlot?]

theorem step_warnings (config : Config) (state : State) (line : String) :
    let s := step config state line
    s.events.countP (·.level = .warning) = (isError (s.output line)).toNat := by
  intro s
  have herror : isError (s.output line) = !s.result.isOk := by
    have htells := (output_tells_result config state line).1
    rw [Bool.eq_iff_iff, isError, List.isPrefixOf_iff_prefix, htells]
    cases s.result with
    | error reason => exact iff_of_true ⟨reason, rfl⟩ rfl
    | ok answer => simp [Except.isOk, Except.toBool]
  rw [(step_records config state line).warnings, herror]

theorem run_events_eq_eachLine (h : ∀ line ∈ lines, line ≠ "") : (run config lines).events =
    (eachLine config (fun state line => (step config state line).events) lines).flatten := by
  induction lines using List.reverseRecOn with
  | nil =>
    rw [run_events]
    rfl
  | append_singleton lines line ih =>
    have hlines : ∀ l ∈ lines, l ≠ "" := fun l hl => h l (List.mem_append_left _ hl)
    rw [run_events_concat hlines (h line (by simp)), eachLine_concat, ih hlines,
      List.flatten_append, List.flatten_singleton]

theorem run_names (h : ∀ line ∈ lines, line ≠ "") : (run config lines).final.store.names =
    (eachLine config (fun state line => (step config state line).events) lines).flatten.filterMap
      Event.createdSlot? := by
  induction lines using List.reverseRecOn with
  | nil =>
    rw [run_final]
    rfl
  | append_singleton lines line ih =>
    have hlines : ∀ l ∈ lines, l ≠ "" := fun l hl => h l (List.mem_append_left _ hl)
    rw [run_final_concat hlines (h line (by simp)), step_names, ih hlines, eachLine_concat,
      List.flatten_append, List.flatten_singleton, List.filterMap_append]

theorem eachLine_warnings (config : Config) (lines : List String) :
    (eachLine config (fun state line => (step config state line).events) lines).flatten.countP
      (·.level = .warning) =
    (eachLine config (fun state line => (step config state line).output line) lines).countP
      isError := by
  induction lines using List.reverseRecOn with
  | nil => rfl
  | append_singleton lines line ih =>
    rw [eachLine_concat, eachLine_concat, List.flatten_append, List.flatten_singleton,
      List.countP_append, List.countP_append, ih, step_warnings, List.countP_singleton]
    cases isError _ <;> rfl

/-- What a session prints and records, and the slots that it ends with, depend on the lines before
the first empty one. -/
theorem run_of_answered (config : Config) (lines : List String) :
    let t := run config lines
    let records := eachLine config (fun state line => (step config state line).events)
      (answered lines)
    t.outputs = (if config.banner then [bannerText] else []) ++
      eachLine config (fun state line => (step config state line).output line) (answered lines) ++
      (if "" ∈ lines then [config.farewell] else []) ∧
    t.events = records.flatten ∧
    t.final.store.names = records.flatten.filterMap Event.createdSlot? := by
  intro t records
  have hlines := forall_answered_ne lines
  have ht : t = _ := run_eq_answered config lines
  rw [ht]
  refine ⟨?_, run_events_eq_eachLine hlines, run_names hlines⟩
  rw [← run_outputs_eq_eachLine hlines]

end

end Session

end SlotCalc
