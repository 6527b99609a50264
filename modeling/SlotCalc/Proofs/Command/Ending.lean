import SlotCalc.Proofs.Command.Dialogue
import SlotCalc.Proofs.Command.Log

namespace SlotCalc.Command

open Session

def failureLine (reason : String) : String :=
  "ERROR memcalc.repl: Failed reading input: " ++ reason

/-- A run after which its input turns out to have failed. -/
def Run.failed (r : Run) (reason : String) : Run :=
  { r with status := 1, stderr := r.stderr ++ failureLine reason ++ "\n" }

section
variable {config : Config} {logLevel : Level} {source : Source} {reason : String}

theorem logLine_inputFailed (reason : String) :
    (Event.inputFailed reason).logLine = failureLine reason := by
  have hlead : "ERROR" ++ " " ++ "memcalc.repl" ++ ": " ++ "Failed reading input: " =
      "ERROR memcalc.repl: Failed reading input: " := by decide
  calc (Event.inputFailed reason).logLine
    _ = "ERROR" ++ " " ++ "memcalc.repl" ++ ": " ++ ("Failed reading input: " ++ reason) := rfl
    _ = "ERROR" ++ " " ++ "memcalc.repl" ++ ": " ++ "Failed reading input: " ++ reason :=
      String.append_assoc.symm
    _ = failureLine reason := congrArg (· ++ reason) hlead

theorem logged_inputFailed (threshold : Level) (reason : String) :
    Event.logged threshold [.inputFailed reason] = [failureLine reason] := by
  have hkept : threshold.rank ≤ (Event.inputFailed reason).level.rank := threshold.rank_le_error
  have hall : [Event.inputFailed reason].filter (fun e => threshold.rank ≤ e.level.rank) =
      [.inputFailed reason] :=
    List.filter_eq_self.2 (List.forall_mem_singleton.2 (decide_eq_true hkept))
  rw [Event.logged, hall, List.map_singleton, logLine_inputFailed]

/-- A failure that comes after an empty line is not noticed. -/
theorem runSession_failed_of_closed (h : "" ∈ source.lines) :
    runSession config logLevel ⟨source, .failed reason⟩ =
      runSession config logLevel ⟨source, .endOfInput⟩ := by
  have hclosed : (Session.run config source.lines).closed = true := by
    rw [run_closed]
    exact decide_eq_true h
  simp only [runSession, endingEvents, hclosed, if_true]
  rfl

theorem runSession_failed_of_open (h : "" ∉ source.lines) :
    runSession config logLevel ⟨source, .failed reason⟩ =
      (runSession config logLevel ⟨source, .endOfInput⟩).failed reason := by
  have hopen : (Session.run config source.lines).closed = false := by
    rw [run_closed]
    exact decide_eq_false h
  simp only [runSession, endingEvents, hopen, Bool.false_eq_true, if_false, Run.failed,
    List.append_nil, logged_append, logged_inputFailed, printed_append, String.append_assoc]
  rfl

theorem run_of_session {arguments : List String} {files : Files}
    (h : start files.read arguments = .session config logLevel) (input : Input) :
    run arguments files input = .ok (runSession config logLevel input) := by
  rw [run, h]

theorem run_of_no_session {arguments : List String} {files : Files}
    (h : ∀ config logLevel, start files.read arguments ≠ .session config logLevel)
    (input input' : Input) : run arguments files input = run arguments files input' := by
  unfold run
  cases hstart : start files.read arguments with
  | ended r => rfl
  | broken cause => rfl
  | session config logLevel => exact absurd hstart (h config logLevel)

theorem runSession_stderr (config : Config) (logLevel : Level) (source : Source) :
    (runSession config logLevel ⟨source, .endOfInput⟩).stderr =
      printed (Event.logged logLevel (Session.run config source.lines).events) := by
  simp only [runSession, endingEvents, List.append_nil]

/-- Only a reason with a line break in it takes more than one line. -/
theorem lines_failed (config : Config) (logLevel : Level) (source : Source)
    (h : Text.OnOneLine reason.toList) :
    let r := runSession config logLevel ⟨source, .endOfInput⟩
    (Source.pipe (r.failed reason).stderr).lines =
      (Source.pipe r.stderr).lines ++ [failureLine reason] := by
  -- Both logs are texts of lines, the second of one line more.
  intro r
  have hlogged : ∀ line ∈ Event.logged logLevel (Session.run config source.lines).events,
      Text.OnOneLine line.toList :=
    onOneLine_of_mem_logged (forall_run_events config source.lines)
  have hfailure : Text.OnOneLine (failureLine reason).toList := by
    rw [← logLine_inputFailed]
    exact Event.onOneLine_logLine h
  have hstderr : (r.failed reason).stderr = printed
      (Event.logged logLevel (Session.run config source.lines).events ++ [failureLine reason]) := by
    rw [printed_append, ← runSession_stderr, Run.failed, String.append_assoc]
    rfl
  have hall := List.forall_mem_append.2 ⟨hlogged, List.forall_mem_singleton.2 hfailure⟩
  rw [hstderr, lines_printed hall, runSession_stderr, lines_printed hlogged]

end

/-- An interrupt ends a run just as the end of the input does. So does a failure if no session has
started or an empty line has been reached; otherwise the run is the same but for the status and one
more line of the log, the last one, which is there at every level. What is printed is the same in
any case: the banner and one output for each line, and after a failure no farewell. -/
theorem run_ending (arguments : List String) (files : Files) (source : Source) :
    let ran ending := run arguments files ⟨source, ending⟩
    ran .interrupted = ran .endOfInput ∧
    (∀ ending, (ran ending).map Run.stdout = (ran .endOfInput).map Run.stdout) ∧
    ((∀ config logLevel, start files.read arguments ≠ .session config logLevel) →
      ∀ ending, ran ending = ran .endOfInput) ∧
    ∀ config logLevel, start files.read arguments = .session config logLevel →
      (∀ ending, ran ending = .ok (dialogue config logLevel ⟨source, ending⟩)) ∧
      ∃ r, ran .endOfInput = .ok r ∧ r.status = 0 ∧ ∀ reason,
        ("" ∈ source.lines → ran (.failed reason) = .ok r) ∧
        ("" ∉ source.lines →
          ran (.failed reason) = .ok (r.failed reason) ∧
          r.stdout = printed ((if config.banner then [bannerText] else []) ++
            eachLine config (fun state line => (step config state line).output line)
              source.lines) ∧
          (Text.OnOneLine reason.toList →
            (Source.pipe (r.failed reason).stderr).lines =
              (Source.pipe r.stderr).lines ++ [failureLine reason])) := by
  intro ran
  refine ⟨?_, ?_, fun h ending => run_of_no_session h _ _, ?_⟩
  -- The ending has a part in a session only.
  · simp only [ran, run]
    cases start files.read arguments <;> rfl
  · intro ending
    simp only [ran, run]
    cases start files.read arguments <;> rfl
  · intro config logLevel hstart
    have hran : ∀ ending, ran ending = .ok (runSession config logLevel ⟨source, ending⟩) :=
      fun ending => run_of_session hstart _
    refine ⟨?_, runSession config logLevel ⟨source, .endOfInput⟩, hran _, rfl, ?_⟩
    · intro ending
      rw [hran, runSession_eq_dialogue]
    · intro reason
      refine ⟨?_, fun hopen => ⟨?_, ?_, lines_failed config logLevel source⟩⟩
      · intro hclosed
        rw [hran, runSession_failed_of_closed hclosed]
      · rw [hran, runSession_failed_of_open hopen]
      · have hlines : ∀ line ∈ source.lines, line ≠ "" := fun line hline heq => hopen (heq ▸ hline)
        rw [← run_outputs_eq_eachLine hlines]
        rfl

theorem run_ending_device_gone :
    let gone := Ending.failed "device gone"
    let ran (lines : List String) ending :=
      run ["-q", "--log-level", "DEBUG"] .empty ⟨.terminal lines, ending⟩
    (∃ r, ran ["memx+ 5x", "1 +"] .endOfInput = .ok r ∧ r.status = 0 ∧
      ran ["memx+ 5x", "1 +"] gone = .ok (r.failed "device gone") ∧
      (Source.pipe (r.failed "device gone").stderr).lines = (Source.pipe r.stderr).lines ++
        ["ERROR memcalc.repl: Failed reading input: device gone"]) ∧
    ran ["memx+", "", "1"] gone = ran ["memx+", "", "1"] .endOfInput ∧
    run ["-qh"] .empty ⟨.pipe "1", gone⟩ = run ["-qh"] .empty ⟨.pipe "1", .endOfInput⟩ := by
  intro gone ran
  have hstart : start Files.empty.read ["-q", "--log-level", "DEBUG"] =
      .session { banner := false } .debug := by rfl
  have hhelp : start Files.empty.read ["-qh"] = .ended (.early 0 Usage.helpText "") := by rfl
  have hnone : ∀ config logLevel, start Files.empty.read ["-qh"] ≠ .session config logLevel := by
    intro config logLevel hsession
    rw [hhelp] at hsession
    cases hsession
  have hopen := run_ending ["-q", "--log-level", "DEBUG"] .empty (.terminal ["memx+ 5x", "1 +"])
  have hclosed := run_ending ["-q", "--log-level", "DEBUG"] .empty (.terminal ["memx+", "", "1"])
  obtain ⟨-, -, hearly, -⟩ := run_ending ["-qh"] .empty (.pipe "1")
  obtain ⟨-, r, hr, hstatus, hfailed⟩ := hopen.2.2.2 _ _ hstart
  obtain ⟨-, _, hended, -, hunnoticed⟩ := hclosed.2.2.2 _ _ hstart
  obtain ⟨hgone, -, hlines⟩ := (hfailed "device gone").2 (by decide)
  refine ⟨⟨r, hr, hstatus, hgone, hlines (by decide)⟩, ?_, hearly hnone gone⟩
  exact ((hunnoticed "device gone").1 (by decide)).trans hended.symm

end SlotCalc.Command
