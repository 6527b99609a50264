import SlotCalc.Proofs.Command.LogLevel
import SlotCalc.Proofs.Session.Records

namespace SlotCalc.Command

open Session

section
variable {arguments : List String} {files : Files} {config : Config}

theorem countP_logLine (events : List Event) (level : Level) :
    ((events.map Event.logLine).countP fun l => Level.ofLogLine? l = some level) =
      events.countP (·.level = level) := by
  simp only [List.countP_map, Function.comp_def, Event.ofLogLine?_logLine, Option.some.injEq]

/-- The whole log of a run has, for each line in turn, just the records that the line calls for,
each on a line of its own, and after them at most that the input has failed. It names the slots that
the session ends with, in their order, when they are created, and it has as many warnings as there
are lines with an error for an output. -/
theorem run_debug_log (files : Files) (input : Input)
    (h : start files.read arguments = .session config .debug) :
    let lines := answered input.source.lines
    let outputs := eachLine config (fun state line => (step config state line).output line) lines
    let records := eachLine config (fun state line => (step config state line).events) lines
    let log := printed (records.flatten.map Event.logLine)
    let created := records.flatten.filterMap Event.createdSlot?
    (∃ r failure, run arguments files input = .ok r ∧
      r.stdout = printed ((if config.banner then [bannerText] else []) ++ outputs ++
        if "" ∈ input.source.lines then [config.farewell] else []) ∧
      r.stderr = log ++ failure ∧
      (failure = "" ∨ ∃ reason, input.ending = .failed reason ∧
        failure = failureLine reason ++ "\n")) ∧
    (Source.pipe log).lines = records.flatten.map Event.logLine ∧
    (∀ i line, lines[i]? = some line →
      let before := (Session.run config (lines.take i)).final
      let s := step config before line
      outputs[i]? = some (s.output line) ∧ records[i]? = some s.events ∧
        Records before line s.result s.state s.events) ∧
    created = (Session.run config input.source.lines).final.store.names ∧ created.Nodup ∧
    ((Source.pipe log).lines.countP fun l => Level.ofLogLine? l = some .warning) =
      outputs.countP isError := by
  intro lines outputs records log created
  obtain ⟨houtputs, hevents, hnames⟩ := run_of_answered config input.source.lines
  -- What stands in the log can be split into its lines again, since no record has a line break.
  have hlog : (Source.pipe log).lines = records.flatten.map Event.logLine := by
    have hlines := lines_printed_logged (forall_run_events config input.source.lines)
    rwa [Event.logged_debug, hevents] at hlines
  have hcreated : created = (Session.run config input.source.lines).final.store.names :=
    hnames.symm
  let closed := (Session.run config input.source.lines).closed
  let failure := printed (Event.logged .debug (endingEvents closed input.ending))
  refine ⟨⟨_, failure, run_of_session h input, ?_, ?_, printed_endingEvents closed _⟩, hlog, ?_,
    hcreated, ?_, ?_⟩
  · simp only [runSession, houtputs]
    rfl
  · have hlogged : Event.logged .debug (Session.run config input.source.lines).events =
        records.flatten.map Event.logLine := by
      rw [Event.logged_debug, hevents]
    simp only [runSession, logged_append, printed_append, hlogged]
    rfl
  · intro i line hline before s
    refine ⟨?_, ?_, step_records config before line⟩
    · rw [getElem?_eachLine, hline]
      rfl
    · rw [getElem?_eachLine, hline]
      rfl
  · rw [hcreated]
    exact Store.names_nodup _
  · rw [hlog, countP_logLine, eachLine_warnings]

end

theorem run_debug_log_full_store :
    let config : Config := { maxSlots := some 2, banner := false }
    let lines := ["2", "memx+ 5x", "memy- ", "memx+", "memz+ 1 2", "1 +"]
    let records := eachLine config (fun state line => (step config state line).events) lines
    let log := printed (records.flatten.map Event.logLine)
    (∃ r failure, run ["-q", "--max-slots=2", "--log-level", "DEBUG"] .empty
        ⟨.terminal lines, .failed "gone"⟩ = .ok r ∧ r.stderr = log ++ failure) ∧
    log =
      "DEBUG memcalc.dispatcher: Evaluated '2' to 2.0\n" ++
      "DEBUG memcalc.dispatcher: Ignoring 1 piece(s) after memx+\n" ++
      "DEBUG memcalc.memory: Created memory slot 'x'\n" ++
      "DEBUG memcalc.dispatcher: Memory slot 'x' changed by 2.0 to 2.0\n" ++
      "DEBUG memcalc.memory: Created memory slot 'y'\n" ++
      "DEBUG memcalc.dispatcher: Memory slot 'y' changed by -2.0 to -2.0\n" ++
      "DEBUG memcalc.dispatcher: Memory slot 'x' changed by 2.0 to 4.0\n" ++
      "DEBUG memcalc.dispatcher: Ignoring 2 piece(s) after memz+\n" ++
      "WARNING memcalc.dispatcher: Rejected line 'memz+ 1 2': MemoryFullError\n" ++
      "WARNING memcalc.dispatcher: Rejected line '1 +': UnexpectedEndOfInput\n" ∧
    (Session.run config lines).final.store.names = ["x", "y"] ∧
    ((Source.pipe log).lines.countP fun l => Level.ofLogLine? l = some .warning) = 2 := by
  intro config lines records log
  have hoptions : Options.ofArguments ["-q", "--max-slots=2", "--log-level", "DEBUG"] =
      .ok { quiet := true, maxSlots := .given 2, logLevel := .given .debug } := by decide +kernel
  have hstart : start Files.empty.read ["-q", "--max-slots=2", "--log-level", "DEBUG"] =
      .session config .debug := by
    rw [start, hoptions]
    rfl
  obtain ⟨⟨r, failure, hr, -, hstderr, -⟩, -, -, hnames, -, hwarnings⟩ :=
    run_debug_log .empty ⟨.terminal lines, .failed "gone"⟩ hstart
  have hcreated : records.flatten.filterMap Event.createdSlot? = ["x", "y"] := by decide +kernel
  refine ⟨⟨r, failure, hr, hstderr⟩, by decide +kernel, hnames.symm.trans hcreated, ?_⟩
  exact hwarnings.trans (by decide +kernel)

end SlotCalc.Command
