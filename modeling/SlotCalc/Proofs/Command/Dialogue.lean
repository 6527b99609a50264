import SlotCalc.Proofs.Command.Lines
import SlotCalc.Proofs.Command.Start
import SlotCalc.Proofs.Session.Shape

namespace SlotCalc.Command

open Session

/-- Where a dialogue takes its lines from, with what is still unread there. -/
inductive Reader
  | terminal (unread : List String)
  | pipe (unread : List Char)

namespace Reader

def ofSource : Source → Reader
  | .terminal lines => terminal lines
  | .pipe text => pipe (Source.translate text.toList)

def prompts : Reader → List String
  | terminal _ => [prompt]
  | pipe _ => []

/-- The next line and what is left after it. Through a pipe, the end is an empty text. -/
def next? : Reader → Option (String × Reader)
  | terminal [] => none
  | terminal (line :: more) => some (line, terminal more)
  | pipe unread =>
    let (line, more) := Source.readLine unread
    if line = [] then none else some (String.ofList (Source.strip line), pipe more)

def size : Reader → Nat
  | terminal unread => unread.length
  | pipe unread => unread.length

def Holds : Reader → List String → Prop
  | terminal unread, lines => unread = lines
  | pipe unread, lines =>
    ∃ text, unread = Source.translate text ∧ (Source.splitLines text).map String.ofList = lines

variable {reader rest : Reader} {line : String} {more : List String}

theorem size_lt_of_next? (h : reader.next? = some (line, rest)) : rest.size < reader.size := by
  cases reader with
  | terminal unread =>
    cases unread with
    | nil => cases h
    | cons first later =>
      cases h
      exact Nat.lt_succ_self _
  | pipe unread =>
    by_cases hline : (Source.readLine unread).1 = []
    · simp [next?, hline] at h
    · have happend := congrArg List.length (Source.readLine_append unread)
      have hpos := List.length_pos_iff.2 hline
      simp only [next?, if_neg hline, Option.some.injEq, Prod.mk.injEq] at h
      rw [List.length_append] at happend
      rw [← h.2]
      simp only [size]
      omega

theorem holds_ofSource (source : Source) : (ofSource source).Holds source.lines := by
  cases source with
  | terminal lines => rfl
  | pipe text => exact ⟨text.toList, rfl, rfl⟩

theorem Holds.next?_eq_none (h : reader.Holds []) : reader.next? = none := by
  cases reader with
  | terminal unread =>
    cases h
    rfl
  | pipe unread =>
    obtain ⟨text, rfl, hlines⟩ := h
    by_cases htext : text = []
    · subst htext
      rfl
    · obtain ⟨-, later, -, hsplit⟩ := Source.readLine_translate htext
      simp [hsplit] at hlines

theorem Holds.exists_next? (h : reader.Holds (line :: more)) :
    ∃ rest, reader.next? = some (line, rest) ∧ rest.Holds more ∧ rest.prompts = reader.prompts := by
  cases reader with
  | terminal unread =>
    cases h
    exact ⟨terminal more, rfl, rfl, rfl⟩
  | pipe unread =>
    obtain ⟨text, rfl, hlines⟩ := h
    have htext : text ≠ [] := by
      rintro rfl
      simp [Source.splitLines] at hlines
    obtain ⟨hne, later, hlater, hsplit⟩ := Source.readLine_translate htext
    rw [hsplit, List.map_cons, List.cons.injEq] at hlines
    obtain ⟨hline, hmore⟩ := hlines
    refine ⟨pipe (Source.translate later), ?_, ⟨later, rfl, hmore⟩, rfl⟩
    simp only [next?, if_neg hne, hline, hlater]

end Reader

theorem printed_append (lines more : List String) :
    printed (lines ++ more) = printed lines ++ printed more := by
  simp [printed]

theorem logged_append (threshold : Level) (events more : List Event) :
    Event.logged threshold (events ++ more) =
      Event.logged threshold events ++ Event.logged threshold more := by
  simp [Event.logged]

/-- Asks for a line, answers it and goes on, until a line is empty or there is none. -/
def converse (config : Config) (logLevel : Level) (ending : Ending) (state : State)
    (reader : Reader) : Run :=
  match _h : reader.next? with
  | none =>
    let failure := endingEvents false ending
    { status := if failure.isEmpty then 0 else 1
      stdout := ""
      stderr := printed (Event.logged logLevel failure)
      prompts := reader.prompts }
  | some (line, rest) =>
    if line.isEmpty then
      { status := 0, stdout := config.farewell ++ "\n", stderr := "", prompts := reader.prompts }
    else
      let s := step config state line
      let later := converse config logLevel ending s.state rest
      { status := later.status
        stdout := s.output line ++ "\n" ++ later.stdout
        stderr := printed (Event.logged logLevel s.events) ++ later.stderr
        prompts := reader.prompts ++ later.prompts }
termination_by reader.size
decreasing_by exact Reader.size_lt_of_next? _h

def dialogue (config : Config) (logLevel : Level) (input : Input) : Run :=
  let answers := converse config logLevel input.ending (.initial config) (.ofSource input.source)
  { answers with
    stdout := (if config.banner then bannerText ++ "\n" else "") ++ answers.stdout }

section
variable {config : Config} {logLevel : Level} {ending : Ending} {state : State} {reader : Reader}

theorem converse_nil (h : reader.next? = none) :
    converse config logLevel ending state reader =
      let failure := endingEvents false ending
      { status := if failure.isEmpty then 0 else 1
        stdout := ""
        stderr := printed (Event.logged logLevel failure)
        prompts := reader.prompts } := by
  rw [converse]
  split
  · rfl
  · rename_i hnext
    rw [h] at hnext
    cases hnext

theorem converse_some {line : String} {rest : Reader} (h : reader.next? = some (line, rest)) :
    converse config logLevel ending state reader =
      if line.isEmpty then
        { status := 0, stdout := config.farewell ++ "\n", stderr := "", prompts := reader.prompts }
      else
        let s := step config state line
        let later := converse config logLevel ending s.state rest
        { status := later.status
          stdout := s.output line ++ "\n" ++ later.stdout
          stderr := printed (Event.logged logLevel s.events) ++ later.stderr
          prompts := reader.prompts ++ later.prompts } := by
  rw [converse]
  split
  · rename_i hnext
    rw [h] at hnext
    cases hnext
  · rename_i hnext
    rw [h] at hnext
    cases hnext
    rfl

theorem converse_eq_follow {lines : List String} (h : reader.Holds lines) :
    converse config logLevel ending state reader =
      let t := follow config state lines
      let failure := endingEvents t.closed ending
      { status := if failure.isEmpty then 0 else 1
        stdout := printed t.outputs
        stderr := printed (Event.logged logLevel (t.events ++ failure))
        prompts :=
          (List.replicate (t.consumed + if t.closed then 0 else 1) reader.prompts).flatten } := by
  induction lines generalizing state reader with
  | nil =>
    rw [converse_nil h.next?_eq_none]
    simp [follow, printed]
  | cons line more ih =>
    obtain ⟨rest, hnext, hrest, hprompts⟩ := h.exists_next?
    rw [converse_some hnext]
    by_cases hline : line = ""
    · subst hline
      cases ending <;> simp [follow, printed, endingEvents, Event.logged]
    · have hempty : line.isEmpty = false := by simpa using hline
      -- A prompt for this line comes before those for the later ones.
      have hshown : ∀ n k, (List.replicate (n + 1 + k) reader.prompts).flatten =
          reader.prompts ++ (List.replicate (n + k) reader.prompts).flatten := by
        intro n k
        rw [Nat.add_right_comm, List.replicate_succ, List.flatten_cons]
      simp only [hempty, follow_cons hline, ih hrest, hprompts, hshown]
      simp [printed, logged_append]

end

/-- What a session leaves is what the dialogue leaves that reads its lines one by one. -/
theorem runSession_eq_dialogue (config : Config) (logLevel : Level) (input : Input) :
    runSession config logLevel input = dialogue config logLevel input := by
  obtain ⟨source, ending⟩ := input
  have hprompts : ∀ t, (List.replicate (t.consumed + if t.closed then 0 else 1)
      (Reader.ofSource source).prompts).flatten =
      List.replicate (promptCount t source) prompt := by
    intro t
    cases source <;> simp [Reader.ofSource, Reader.prompts, promptCount]
  simp only [dialogue, runSession, Session.run, converse_eq_follow (Reader.holds_ofSource source),
    hprompts]
  cases config.banner <;> cases source <;> simp [printed, promptCount]

/-- What a run leaves besides its prompts. -/
def Run.unprompted (r : Run) : Run := { r with prompts := [] }

theorem run_unprompted (arguments : List String) (files : Files) {lines : List String}
    {text : String} (h : (Source.pipe text).lines = lines) (ending : Ending) :
    (run arguments files ⟨.terminal lines, ending⟩).map Run.unprompted =
      run arguments files ⟨.pipe text, ending⟩ := by
  subst h
  obtain ⟨_, _, _, -, -, hstart⟩ | ⟨_, _, _, hstart⟩ | ⟨_, hstart⟩ :=
    start_cases files.read arguments
  · simp only [run, hstart]
    rfl
  · simp only [run, hstart]
    rfl
  · simp only [run, hstart]
    rfl

/-- Lines that are typed and lines that come through a pipe, with whichever end, give the same
output, log and status, whatever the arguments, the files and the ending. Where a session starts it
is a dialogue with the settings that the options resolve to; all its outputs are printed, and on a
terminal each line that is taken is asked for, and one more if no line is empty. -/
theorem run_terminal_eq_run_pipe (arguments : List String) (files : Files) (ending : Ending)
    (lines : List String) (hlines : ∀ line ∈ lines, ∀ c ∈ line.toList, c ≠ '\n' ∧ c ≠ '\r')
    (e : LineEnd) (text : String) (htext : e.Writes lines text) :
    let typed := run arguments files ⟨.terminal lines, ending⟩
    let piped := run arguments files ⟨.pipe text, ending⟩
    typed.map Run.unprompted = piped ∧
    ∀ config logLevel, start files.read arguments = .session config logLevel →
      let r := dialogue config logLevel ⟨.terminal lines, ending⟩
      let t := Session.run config lines
      (∃ o, Options.ofArguments arguments = .ok o ∧ resolve files.read o = .ok config) ∧
      typed = .ok r ∧
      piped = .ok (dialogue config logLevel ⟨.pipe text, ending⟩) ∧
      r.stdout = printed t.outputs ∧
      t.consumed = (if "" ∈ lines then lines.idxOf "" + 1 else lines.length) ∧
      r.prompts = List.replicate (t.consumed + if "" ∈ lines then 0 else 1) prompt := by
  intro typed piped
  refine ⟨run_unprompted arguments files (Source.lines_pipe_of_writes hlines htext) ending, ?_⟩
  intro config logLevel hstart r t
  have hsession : ∀ input, run arguments files input = .ok (dialogue config logLevel input) := by
    intro input
    simp only [run, hstart, runSession_eq_dialogue]
  have hr : r = runSession config logLevel ⟨.terminal lines, ending⟩ :=
    (runSession_eq_dialogue _ _ _).symm
  have ht : t.closed = decide ("" ∈ lines) ∧
      t.consumed = if "" ∈ lines then lines.idxOf "" + 1 else lines.length := by
    simp only [t]
    rw [run_eq_answered]
    exact ⟨rfl, rfl⟩
  refine ⟨resolve_of_start hstart, hsession _, hsession _, ?_, ht.2, ?_⟩
  · rw [hr]
    rfl
  · have hcount : r.prompts = List.replicate (t.consumed + if t.closed then 0 else 1) prompt := by
      rw [hr]
      rfl
    simpa [ht.1] using hcount

theorem run_terminal_eq_run_pipe_unended :
    let ending := Ending.failed "device gone"
    let r : Run :=
      { status := 0, stdout := "set memory equal 0\nBye!\n", stderr := "", prompts := ["> ", "> "] }
    run ["-q"] .empty ⟨.terminal ["mem+", "", "1"], ending⟩ = .ok r ∧
    run ["-q"] .empty ⟨.pipe "mem+\r\n\r\n1", ending⟩ = .ok r.unprompted ∧
    (Session.run { banner := false } ["mem+", "", "1"]).consumed = 2 := by
  intro ending r
  have htyped : run ["-q"] .empty ⟨.terminal ["mem+", "", "1"], ending⟩ = .ok r := by
    decide +kernel
  have hstart : start Files.empty.read ["-q"] = .session { banner := false } .warning := by rfl
  obtain ⟨hpiped, hsession⟩ := run_terminal_eq_run_pipe ["-q"] .empty ending ["mem+", "", "1"]
    (by simp) .both "mem+\r\n\r\n1" (.unended ["mem+", ""] "1" (by decide))
  obtain ⟨-, -, -, -, hconsumed, -⟩ := hsession _ _ hstart
  rw [htyped] at hpiped
  exact ⟨htyped, hpiped.symm, hconsumed.trans (by decide)⟩

end SlotCalc.Command
