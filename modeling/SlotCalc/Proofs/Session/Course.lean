import Mathlib.Data.List.Induction
import SlotCalc.Session

namespace SlotCalc.Session

/-- What the lines of a session give, each in the state just before it. -/
def eachLine (config : Config) (f : State → String → β) (lines : List String) : List β :=
  lines.zipIdx.map fun (line, i) => f (run config (lines.take i)).final line

section
variable {config : Config} {state : State} {line : String} {lines more : List String}

theorem follow_cons (h : line ≠ "") :
    follow config state (line :: more) =
      let s := step config state line
      let later := follow config s.state more
      { later with
        outputs := s.output line :: later.outputs
        events := s.events ++ later.events
        consumed := later.consumed + 1 } := by
  have hline : line.isEmpty = false := by simpa using h
  rw [follow, hline]
  rfl

/-- Later lines are answered from the state that the earlier ones leave. -/
theorem follow_append (h : ∀ line ∈ lines, line ≠ "") :
    follow config state (lines ++ more) =
      let earlier := follow config state lines
      let later := follow config earlier.final more
      { outputs := earlier.outputs ++ later.outputs
        events := earlier.events ++ later.events
        consumed := earlier.consumed + later.consumed
        closed := later.closed
        final := later.final } := by
  induction lines generalizing state with
  | nil => simp [follow]
  | cons line lines ih =>
    obtain ⟨hline, hlines⟩ := List.forall_mem_cons.1 h
    simp only [List.cons_append, follow_cons hline, ih hlines, List.append_assoc,
      Nat.add_right_comm]

theorem run_final : (run config lines).final = (follow config (.initial config) lines).final := by
  unfold run
  split <;> rfl

theorem run_outputs : (run config lines).outputs =
    (if config.banner then [bannerText] else []) ++
      (follow config (.initial config) lines).outputs := by
  unfold run
  split <;> rfl

theorem run_events :
    (run config lines).events = (follow config (.initial config) lines).events := by
  unfold run
  split <;> rfl

theorem follow_singleton (h : line ≠ "") :
    follow config state [line] =
      let s := step config state line
      { outputs := [s.output line]
        events := s.events
        consumed := 1
        closed := false
        final := s.state } := by
  rw [follow_cons h]
  simp [follow]

theorem run_final_concat (h : ∀ line ∈ lines, line ≠ "") (hline : line ≠ "") :
    (run config (lines ++ [line])).final = (step config (run config lines).final line).state := by
  rw [run_final, run_final, follow_append h]
  simp only [follow_singleton hline]

theorem run_final_take_succ (h : ∀ line ∈ lines, line ≠ "") {i : Nat}
    (hline : lines[i]? = some line) :
    (run config (lines.take (i + 1))).final =
      (step config (run config (lines.take i)).final line).state := by
  have htake : lines.take (i + 1) = lines.take i ++ [line] := by
    rw [List.take_add_one, hline]
    rfl
  have hearlier : ∀ l ∈ lines.take i, l ≠ "" := fun l hl => h l (List.mem_of_mem_take hl)
  rw [htake, run_final_concat hearlier (h line (List.mem_of_getElem? hline))]

theorem run_outputs_concat (h : ∀ line ∈ lines, line ≠ "") (hline : line ≠ "") :
    (run config (lines ++ [line])).outputs =
      (run config lines).outputs ++ [(step config (run config lines).final line).output line] := by
  rw [run_outputs, run_outputs, run_final, follow_append h, List.append_assoc]
  simp only [follow_singleton hline]

theorem run_events_concat (h : ∀ line ∈ lines, line ≠ "") (hline : line ≠ "") :
    (run config (lines ++ [line])).events =
      (run config lines).events ++ (step config (run config lines).final line).events := by
  rw [run_events, run_events, run_final, follow_append h]
  simp only [follow_singleton hline]

theorem eachLine_concat (f : State → String → β) (lines : List String) (line : String) :
    eachLine config f (lines ++ [line]) =
      eachLine config f lines ++ [f (run config lines).final line] := by
  unfold eachLine
  rw [List.zipIdx_append, List.map_append]
  congr 1
  · apply List.map_congr_left
    rintro ⟨l, i⟩ hmem
    have hi : i < lines.length := by
      have := List.snd_lt_of_mem_zipIdx hmem
      omega
    simp only
    rw [List.take_append_of_le_length (by omega)]
  · simp

theorem getElem?_eachLine (f : State → String → β) (lines : List String) (i : Nat) :
    (eachLine config f lines)[i]? = lines[i]?.map (f (run config (lines.take i)).final) := by
  simp [eachLine, Function.comp_def]

theorem eachLine_take (f : State → String → β) (lines : List String) (i : Nat) :
    eachLine config f (lines.take i) = (eachLine config f lines).take i := by
  apply List.ext_getElem?
  intro j
  rw [getElem?_eachLine, List.getElem?_take, List.getElem?_take, getElem?_eachLine, List.take_take]
  split
  · rename_i hj
    rw [Nat.min_eq_left (Nat.le_of_lt hj)]
  · rfl

theorem run_outputs_eq_eachLine (h : ∀ line ∈ lines, line ≠ "") :
    (run config lines).outputs = (if config.banner then [bannerText] else []) ++
      eachLine config (fun state line => (step config state line).output line) lines := by
  induction lines using List.reverseRecOn with
  | nil =>
    rw [run_outputs]
    rfl
  | append_singleton lines line ih =>
    have hlines : ∀ l ∈ lines, l ≠ "" := fun l hl => h l (List.mem_append_left _ hl)
    rw [run_outputs_concat hlines (h line (by simp)), eachLine_concat, ih hlines,
      List.append_assoc]

theorem getElem?_run_outputs (h : ∀ line ∈ lines, line ≠ "") (i : Nat) :
    (run config lines).outputs[i + config.banner.toNat]? =
      lines[i]?.map fun line =>
        (step config (run config (lines.take i)).final line).output line := by
  rw [run_outputs_eq_eachLine h]
  cases config.banner <;> simp [getElem?_eachLine]

end

end SlotCalc.Session
