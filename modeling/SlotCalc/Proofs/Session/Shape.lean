import Mathlib.Data.List.Basic
import SlotCalc.Proofs.Session.Course
import SlotCalc.Proofs.Session.Outcome
import SlotCalc.Proofs.Text.Runs

namespace SlotCalc.Session

/-- The lines that are answered: those before the first empty one. -/
def answered (lines : List String) : List String := lines.take (lines.idxOf "")

section
variable {line : String} {lines more : List String}

theorem answered_cons (h : line ≠ "") : answered (line :: lines) = line :: answered lines := by
  rw [answered, List.idxOf_cons_ne lines h]
  rfl

theorem forall_answered_ne (lines : List String) : ∀ line ∈ answered lines, line ≠ "" := by
  induction lines with
  | nil => simp [answered]
  | cons first more ih =>
    by_cases hfirst : first = ""
    · simp [answered, hfirst]
    · rw [answered_cons hfirst]
      exact List.forall_mem_cons.2 ⟨hfirst, ih⟩

theorem answered_take (lines : List String) (i : Nat) :
    answered (lines.take i) = (answered lines).take i := by
  induction lines generalizing i with
  | nil => simp [answered]
  | cons line more ih =>
    cases i with
    | zero => rfl
    | succ i =>
      by_cases hline : line = ""
      · simp [answered, hline]
      · rw [List.take_succ_cons, answered_cons hline, answered_cons hline, List.take_succ_cons, ih]

theorem length_answered (lines : List String) : (answered lines).length = lines.idxOf "" := by
  rw [answered, List.length_take]
  exact Nat.min_eq_left List.idxOf_le_length

end

section
variable {config : Config} {line : String} {lines more : List String}

theorem follow_eq_answered (state : State) (lines : List String) : follow config state lines =
    let t := follow config state (answered lines)
    { t with
      outputs := t.outputs ++ if "" ∈ lines then [config.farewell] else []
      consumed := if "" ∈ lines then lines.idxOf "" + 1 else lines.length
      closed := decide ("" ∈ lines) } := by
  induction lines generalizing state with
  | nil => rfl
  | cons line more ih =>
    by_cases hline : line = ""
    · subst hline
      simp [answered, follow]
    · have hlater := ih (step config state line).state
      have hmem : "" ∈ line :: more ↔ "" ∈ more := by simp [Ne.symm hline]
      simp only [answered_cons hline, follow_cons hline, hlater, hmem,
        List.idxOf_cons_ne more hline, List.length_cons, List.cons_append]
      -- The later lines have an empty one or not, and so has the whole.
      by_cases hmore : "" ∈ more <;> simp [hmore]

theorem run_eq_answered (config : Config) (lines : List String) : run config lines =
    let t := run config (answered lines)
    { t with
      outputs := t.outputs ++ if "" ∈ lines then [config.farewell] else []
      consumed := if "" ∈ lines then lines.idxOf "" + 1 else lines.length
      closed := decide ("" ∈ lines) } := by
  unfold run
  rw [follow_eq_answered]
  cases config.banner <;> rfl

theorem run_closed (config : Config) (lines : List String) :
    (run config lines).closed = decide ("" ∈ lines) := by
  rw [run_eq_answered]

/-- The first `i` outputs depend on the first `i` lines only. -/
theorem follow_outputs_take (state : State) (lines : List String) (i : Nat) :
    (follow config state (lines.take i)).outputs = (follow config state lines).outputs.take i := by
  induction lines generalizing state i with
  | nil => simp [follow]
  | cons line more ih =>
    cases i with
    | zero => rfl
    | succ i =>
      by_cases hline : line = ""
      · subst hline
        simp [follow]
      · simp only [List.take_succ_cons, follow_cons hline, ih]

theorem run_outputs_take (config : Config) (lines : List String) (i : Nat) :
    (run config (lines.take i)).outputs =
      (run config lines).outputs.take (i + config.banner.toNat) := by
  rw [run_outputs, run_outputs, follow_outputs_take]
  cases config.banner <;> simp

/-- The output for a line stands after the banner and the outputs for the lines before it. -/
theorem getElem?_run_outputs_of_answered {i : Nat} (h : (answered lines)[i]? = some line) :
    (run config lines).outputs[i + config.banner.toNat]? =
      some ((step config (run config (lines.take i)).final line).output line) := by
  have hi : i < lines.idxOf "" := by
    rw [← length_answered]
    exact (List.getElem?_eq_some_iff.1 h).1
  have htake : (answered lines).take i = lines.take i := by
    rw [answered, List.take_take, Nat.min_eq_left (Nat.le_of_lt hi)]
  have houtput : (run config (answered lines)).outputs[i + config.banner.toNat]? = _ :=
    getElem?_run_outputs (forall_answered_ne lines) i
  rw [h, htake, Option.map_some] at houtput
  obtain ⟨hlength, -⟩ := List.getElem?_eq_some_iff.1 houtput
  rw [run_eq_answered, ← houtput]
  exact List.getElem?_append_left hlength

theorem run_concat (h : "" ∉ lines) (hline : line ≠ "") : run config (lines ++ [line]) =
    let t := run config lines
    let s := step config t.final line
    { t with
      outputs := t.outputs ++ [s.output line]
      events := t.events ++ s.events
      consumed := t.consumed + 1
      final := s.state } := by
  have hlines : ∀ l ∈ lines, l ≠ "" := fun l hl heq => h (heq ▸ hl)
  have hopen : (follow config (.initial config) lines).closed = false := by
    rw [follow_eq_answered]
    simpa using h
  simp only [run, follow_append hlines, follow_singleton hline]
  cases config.banner <;> simp [hopen]

end

end SlotCalc.Session
