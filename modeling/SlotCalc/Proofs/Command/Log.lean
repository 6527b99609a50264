import SlotCalc.Proofs.Command.Lines
import SlotCalc.Proofs.Decimal.ReadBack
import SlotCalc.Proofs.Session.Course
import SlotCalc.Proofs.Session.Leading
import SlotCalc.Proofs.Session.Outcome
import SlotCalc.Proofs.Text.Quoted
import SlotCalc.Command

namespace SlotCalc

namespace Level

/-- The level that a line of a log begins with. -/
def ofLogLine? (line : String) : Option Level :=
  ofName? (String.ofList (line.toList.takeWhile (· ≠ ' ')))

/-- Whether a line is in a log that begins at the threshold: only the lines that begin with a lower
level are not. -/
def admits (threshold : Level) (line : String) : Bool :=
  (ofLogLine? line).all fun level => threshold.rank ≤ level.rank

theorem rank_debug_le (level : Level) : debug.rank ≤ level.rank := Nat.zero_le _

theorem rank_le_error (level : Level) : level.rank ≤ error.rank := by
  cases level <;> decide

theorem ofName?_name (level : Level) : ofName? level.name = some level := by
  cases level <;> decide

theorem space_not_mem_name (level : Level) : ' ' ∉ level.name.toList := by
  cases level <;> decide

theorem onOneLine_name (level : Level) : Text.OnOneLine level.name.toList := by
  cases level <;> decide

end Level

namespace Event

open Text

/-- What a log line has of the event as it stands. All else that comes from outside is quoted. -/
def unquoted : Event → String
  | ignored _ command => command
  | inputFailed reason => reason
  | created .. | changed .. | evaluated .. | rejected .. => ""

section
variable {e : Event}

theorem ofLogLine?_logLine (e : Event) : Level.ofLogLine? e.logLine = some e.level := by
  have htext : e.logLine.toList =
      e.level.name.toList ++ ' ' :: (e.source ++ ": " ++ e.text).toList := by
    simp [logLine]
  have hname : ∀ c ∈ e.level.name.toList, decide (c ≠ ' ') = true := by
    intro c hc
    rw [decide_eq_true_eq]
    rintro rfl
    exact e.level.space_not_mem_name hc
  rw [Level.ofLogLine?, htext, List.takeWhile_append_of_pos hname,
    List.takeWhile_cons_of_neg (by simp), List.append_nil, String.ofList_toList,
    Level.ofName?_name]

theorem admits_logLine (threshold : Level) (e : Event) :
    threshold.admits e.logLine = decide (threshold.rank ≤ e.level.rank) := by
  rw [Level.admits, ofLogLine?_logLine, Option.all_some]

theorem logged_debug (events : List Event) : logged .debug events = events.map logLine := by
  have hall : events.filter (fun e => Level.debug.rank ≤ e.level.rank) = events :=
    List.filter_eq_self.2 fun e _ => decide_eq_true e.level.rank_debug_le
  rw [logged, hall]

theorem logged_eq_filter (threshold : Level) (events : List Event) :
    logged threshold events = (logged .debug events).filter threshold.admits := by
  -- The level is read back from the line, so that lines can be left out instead of events.
  have hadmits : threshold.admits ∘ logLine = fun e => decide (threshold.rank ≤ e.level.rank) := by
    funext e
    rw [Function.comp_apply, admits_logLine]
  rw [logged_debug, logged, List.filter_map, hadmits]

theorem onOneLine_plain (x : Float) : OnOneLine (Decimal.plain x).toList :=
  onOneLine_of_unbroken (Decimal.plain_unbroken x)

theorem onOneLine_toString (n : Nat) : OnOneLine (toString n).toList := by
  rw [Nat.toString_eq_ofList_toDigits, String.toList_ofList]
  exact onOneLine_of_unbroken (Decimal.areDigits_toDigits n).unbroken

theorem onOneLine_label (reason : Rejection) : OnOneLine reason.label.toList := by
  unfold Rejection.label
  split
  · decide
  · unfold Expr.Fault.Cause.label
    split <;> decide
  · decide

theorem onOneLine_source (e : Event) : OnOneLine e.source.toList := by
  unfold source
  split <;> decide

theorem onOneLine_text (h : OnOneLine e.unquoted.toList) : OnOneLine e.text.toList := by
  -- What stands between the parts of a text is fixed, and so is on one line by computation.
  unfold text
  cases e <;> simp only [String.toList_append, onOneLine_append]
  case ignored count command => exact ⟨⟨⟨by decide, onOneLine_toString count⟩, by decide⟩, h⟩
  case created slot => exact ⟨by decide, onOneLine_quoted slot⟩
  case changed slot delta value =>
    exact ⟨⟨⟨⟨⟨by decide, onOneLine_quoted slot⟩, by decide⟩, onOneLine_plain delta⟩, by decide⟩,
      onOneLine_plain value⟩
  case evaluated line value =>
    exact ⟨⟨⟨by decide, onOneLine_quoted line⟩, by decide⟩, onOneLine_plain value⟩
  case rejected line reason =>
    exact ⟨⟨⟨by decide, onOneLine_quoted line⟩, by decide⟩, onOneLine_label reason⟩
  case inputFailed reason => exact ⟨by decide, h⟩

theorem onOneLine_logLine (h : OnOneLine e.unquoted.toList) : OnOneLine e.logLine.toList := by
  simp only [logLine, String.toList_append, onOneLine_append]
  exact ⟨⟨⟨⟨e.level.onOneLine_name, by decide⟩, onOneLine_source e⟩, by decide⟩, onOneLine_text h⟩

end

end Event

namespace Session

open Text

theorem forall_ignoredEvents {line : String} {command : Token}
    (hcommand : command? line = some command) :
    ∀ e ∈ ignoredEvents line command, OnOneLine e.unquoted.toList := by
  obtain ⟨sign, name, hbegins, rfl⟩ := exists_beginsWith hcommand
  have hlexeme : OnOneLine (commandToken sign name).lexeme.toList :=
    onOneLine_of_unbroken (commandText_unbroken sign hbegins.unbroken)
  simp only [ignoredEvents]
  split
  · simp
  · exact List.forall_mem_singleton.2 hlexeme

/-- Of a line nothing is logged as it stands but the command that it begins with. -/
theorem forall_step_events (config : Config) (state : State) (line : String) :
    ∀ e ∈ (step config state line).events, OnOneLine e.unquoted.toList := by
  have hquoted : OnOneLine "".toList := by decide
  have houtcome := outcome_step config state line
  generalize step config state line = s at houtcome
  cases houtcome with
  | stored command store hcommand h =>
    have hcreated : ∀ e ∈ (if state.store.contains command.name then []
        else [Event.created command.name]), OnOneLine e.unquoted.toList := by
      split
      · simp
      · exact List.forall_mem_singleton.2 hquoted
    have hearlier := List.forall_mem_append.2 ⟨forall_ignoredEvents hcommand, hcreated⟩
    exact List.forall_mem_append.2 ⟨hearlier, List.forall_mem_singleton.2 hquoted⟩
  | full command e hcommand h =>
    exact List.forall_mem_append.2
      ⟨forall_ignoredEvents hcommand, List.forall_mem_singleton.2 hquoted⟩
  | evaluated | malformed | faulty => exact List.forall_mem_singleton.2 hquoted

theorem forall_follow_events (config : Config) (state : State) (lines : List String) :
    ∀ e ∈ (follow config state lines).events, OnOneLine e.unquoted.toList := by
  induction lines generalizing state with
  | nil => simp [follow]
  | cons line more ih =>
    by_cases hline : line = ""
    · simp [hline, follow]
    · rw [follow_cons hline]
      exact List.forall_mem_append.2 ⟨forall_step_events config state line, ih _⟩

theorem forall_run_events (config : Config) (lines : List String) :
    ∀ e ∈ (run config lines).events, OnOneLine e.unquoted.toList := by
  rw [run_events]
  exact forall_follow_events config _ lines

end Session

namespace Command

section
variable {threshold : Level} {events : List Event}

def restrict (threshold : Level) (log : String) : String :=
  printed ((Source.pipe log).lines.filter threshold.admits)

theorem lines_printed {lines : List String} (h : ∀ line ∈ lines, Text.OnOneLine line.toList) :
    (Source.pipe (printed lines)).lines = lines :=
  Source.lines_pipe_of_writes (fun line hline => (h line hline).ne_lineEnd)
    (LineEnd.Writes.ended (e := .lineFeed) lines)

theorem onOneLine_of_mem_logged (h : ∀ e ∈ events, Text.OnOneLine e.unquoted.toList) :
    ∀ line ∈ Event.logged threshold events, Text.OnOneLine line.toList := by
  intro line hline
  obtain ⟨e, he, rfl⟩ := List.mem_map.1 hline
  exact Event.onOneLine_logLine (h e (List.mem_of_mem_filter he))

theorem lines_printed_logged (h : ∀ e ∈ events, Text.OnOneLine e.unquoted.toList) :
    (Source.pipe (printed (Event.logged .debug events))).lines = events.map Event.logLine := by
  rw [lines_printed (onOneLine_of_mem_logged h), Event.logged_debug]

/-- The log from a level on is the whole log without the lines below the level. -/
theorem restrict_logged (threshold : Level)
    (h : ∀ e ∈ events, Text.OnOneLine e.unquoted.toList) :
    restrict threshold (printed (Event.logged .debug events)) =
      printed (Event.logged threshold events) := by
  rw [restrict, lines_printed (onOneLine_of_mem_logged h), ← Event.logged_eq_filter]

end

end Command

end SlotCalc
