import SlotCalc.Proofs.Command.Ending
import SlotCalc.Proofs.Options.Accepted

namespace SlotCalc.Command

open Session

theorem Start.ofOptions_given (read : Path → Except ReadFailure ByteArray) (o : Options)
    (level : Level) : Start.ofOptions read { o with logLevel := .given level } =
      match resolve read o with
      | .ok config => .session config level
      | .error (.reported e) => .ended (.early 2 "" (e.message ++ "\n"))
      | .error (.broken cause) => .broken cause := by
  have hresolve : resolve read { o with logLevel := .given level } = resolve read o := rfl
  unfold Start.ofOptions
  rw [hresolve]
  obtain (e | cause) | config := resolve read o <;> rfl

section
variable {read : Path → Except ReadFailure ByteArray} {arguments : List String} {files : Files}
  {input : Input} {o : Options} {config : Config} {level : Level}

theorem start_given (h : Options.ofArguments arguments = .ok { o with logLevel := .given level }) :
    start read arguments =
      match resolve read o with
      | .ok config => .session config level
      | .error (.reported e) => .ended (.early 2 "" (e.message ++ "\n"))
      | .error (.broken cause) => .broken cause := by
  rw [← Start.ofOptions_given, start, h]

theorem logged_endingEvents (level : Level) (closed : Bool) (ending : Ending) :
    Event.logged level (endingEvents closed ending) =
      Event.logged .debug (endingEvents closed ending) := by
  cases ending with
  | endOfInput | interrupted => rfl
  | failed reason =>
    cases closed with
    | true => rfl
    | false => exact (logged_inputFailed level reason).trans (logged_inputFailed .debug reason).symm

theorem printed_endingEvents (closed : Bool) (ending : Ending) :
    let failure := printed (Event.logged .debug (endingEvents closed ending))
    failure = "" ∨ ∃ reason, ending = .failed reason ∧ failure = failureLine reason ++ "\n" := by
  cases ending with
  | endOfInput | interrupted => exact .inl rfl
  | failed reason =>
    cases closed with
    | true => exact .inl rfl
    | false =>
      have hlogged := congrArg printed (logged_inputFailed .debug reason)
      exact .inr ⟨reason, rfl, hlogged⟩

theorem onOneLine_endingEvents (closed : Bool) {ending : Ending}
    (h : ∀ reason, ending = .failed reason → Text.OnOneLine reason.toList) :
    ∀ e ∈ endingEvents closed ending, Text.OnOneLine e.unquoted.toList := by
  cases ending with
  | endOfInput | interrupted => simp [endingEvents]
  | failed reason =>
    cases closed with
    | true => simp [endingEvents]
    | false => exact List.forall_mem_singleton.2 (h reason rfl)

theorem runSession_level (config : Config) (level : Level) (input : Input) :
    runSession config level input =
      { runSession config .debug input with
        stderr := (runSession config level input).stderr } := rfl

/-- What a session has logged at a level before its end, and what at its end. -/
theorem runSession_stderr_eq_restrict (config : Config) (level : Level) (input : Input) :
    let t := Session.run config input.source.lines
    (runSession config level input).stderr =
      restrict level (printed (Event.logged .debug t.events)) ++
        printed (Event.logged .debug (endingEvents t.closed input.ending)) := by
  intro t
  rw [restrict_logged level (forall_run_events config input.source.lines),
    ← logged_endingEvents level, ← printed_append, ← logged_append]
  rfl

theorem runSession_stderr_eq_restrict_of_onOneLine (config : Config) (level : Level)
    (h : ∀ reason, input.ending = .failed reason → Text.OnOneLine reason.toList) :
    (runSession config level input).stderr =
      restrict level (runSession config .debug input).stderr := by
  have hevents := List.forall_mem_append.2 ⟨forall_run_events config input.source.lines,
    onOneLine_endingEvents (Session.run config input.source.lines).closed h⟩
  exact (restrict_logged level hevents).symm

end

/-- Arguments that are accepted are accepted with a log level after them, and whichever arguments
are read as the same options at that level, the run is the same. If the settings are not in order,
the level does not matter. If they are, a run has the same status, output and prompts at each level,
and its log is that of the run at the lowest level without the lines below its own. That log has one
line for each event of the session, whatever the input holds; only the reason of a failed input
might have a line break in it. -/
theorem run_log_level (files : Files) (input : Input) {arguments : List String} {o : Options}
    (h : Options.ofArguments arguments = .ok o) :
    let leveled (level : Level) := arguments ++ ["--log-level", level.name]
    let ran (level : Level) := run (leveled level) files input
    (∀ level, Options.ofArguments (leveled level) = .ok { o with logLevel := .given level }) ∧
    (∀ level others, Options.ofArguments others = .ok { o with logLevel := .given level } →
      run others files input = ran level) ∧
    (∀ e, resolve files.read o = .error e → ∀ level, ran level = ran .debug) ∧
    ∀ config, resolve files.read o = .ok config →
      ∃ r log failure, ran .debug = .ok r ∧ r.stderr = log ++ failure ∧
        (Source.pipe log).lines =
          (Session.run config input.source.lines).events.map Event.logLine ∧
        (failure = "" ∨ ∃ reason, input.ending = .failed reason ∧
          failure = failureLine reason ++ "\n") ∧
        (∀ level, ran level = .ok { r with stderr := restrict level log ++ failure }) ∧
        ((∀ reason, input.ending = .failed reason → Text.OnOneLine reason.toList) →
          ∀ level, ran level = .ok { r with stderr := restrict level r.stderr }) := by
  intro leveled ran
  have haccepted (level : Level) : Options.ofArguments (leveled level) =
      .ok { o with logLevel := .given level } := Options.ofArguments_append_logLevel h level
  refine ⟨haccepted, ?_, ?_, ?_⟩
  · intro level others hothers
    simp only [ran, run, start_given hothers, start_given (haccepted level)]
  · intro e he level
    simp only [ran, run, start_given (haccepted _), he]
    cases e <;> rfl
  · intro config hconfig
    have hran (level : Level) : ran level = .ok (runSession config level input) := by
      simp only [ran, run, start_given (haccepted level), hconfig]
    -- The log up to the ending has one line for each event; the ending is logged at every level.
    let t := Session.run config input.source.lines
    refine ⟨runSession config .debug input, printed (Event.logged .debug t.events),
      printed (Event.logged .debug (endingEvents t.closed input.ending)), hran .debug, ?_,
      lines_printed_logged (forall_run_events config _), printed_endingEvents _ _, ?_, ?_⟩
    · rw [← printed_append, ← logged_append]
      rfl
    · intro level
      rw [hran, runSession_level, runSession_stderr_eq_restrict]
    · intro hreason level
      rw [hran, runSession_level, runSession_stderr_eq_restrict_of_onOneLine config level hreason]

theorem run_log_level_warning :
    let input : Input := ⟨.terminal ["memx+ 5x", "memx\nDEBUG y"], .failed "device gone"⟩
    ∃ r, run ["-q", "--log-level", "DEBUG"] .empty input = .ok r ∧
      run ["-q", "--log=WARNING"] .empty input =
        .ok { r with stderr := restrict .warning r.stderr } ∧
      restrict .warning r.stderr =
        "WARNING memcalc.dispatcher: Rejected line 'memx\\nDEBUG y': MalformedNumber\n" ++
        "ERROR memcalc.repl: Failed reading input: device gone\n" := by
  intro input
  have hquiet : Options.ofArguments ["-q"] = .ok { quiet := true } := by decide +kernel
  have hwarning : Options.ofArguments ["-q", "--log=WARNING"] =
      .ok { quiet := true, logLevel := .given .warning } := by decide +kernel
  obtain ⟨-, hothers, -, hsession⟩ := run_log_level .empty input hquiet
  obtain ⟨r, -, -, hdebug, -, -, -, -, hlines⟩ := hsession { banner := false } rfl
  have hran := (hothers .warning _ hwarning).trans (hlines (by rintro reason ⟨⟩; decide) .warning)
  refine ⟨r, hdebug, hran, ?_⟩
  have hstderr : (run ["-q", "--log=WARNING"] .empty input).map Run.stderr = .ok
      ("WARNING memcalc.dispatcher: Rejected line 'memx\\nDEBUG y': MalformedNumber\n" ++
        "ERROR memcalc.repl: Failed reading input: device gone\n") := by decide +kernel
  rw [hran] at hstderr
  exact Except.ok.inj hstderr

end SlotCalc.Command
