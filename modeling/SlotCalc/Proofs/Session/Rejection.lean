import SlotCalc.Proofs.Session.Course
import SlotCalc.Proofs.Session.Outcome

namespace SlotCalc.Session

def without (gone : Nat → Bool) : List α → List α
  | [] => []
  | x :: xs =>
    let later := without (fun i => gone (i + 1)) xs
    if gone 0 then later else x :: later

/-- The line at position `i` is answered, for no line up to it is empty, and the answer is an
error. -/
def RejectedAt (config : Config) (state : State) (lines : List String) (i : Nat) : Prop :=
  ∃ line, lines[i]? = some line ∧ (∀ l ∈ lines.take (i + 1), l ≠ "") ∧
    (step config (follow config state (lines.take i)).final line).result.isOk = false

/-- The positions of the outputs that answer the lines at the given positions. -/
def outputPositions (config : Config) (positions : Nat → Bool) (i : Nat) : Bool :=
  config.banner.toNat ≤ i && positions (i - config.banner.toNat)

section
variable {config : Config} {state : State} {line : String} {more : List String}

theorem step_state_of_error (h : (step config state line).result.isOk = false) :
    (step config state line).state = state := by
  have houtcome := outcome_step config state line
  generalize step config state line = s at h houtcome ⊢
  cases houtcome with
  | stored | evaluated => cases h
  | full | malformed | faulty => rfl

theorem RejectedAt.ne_empty {i : Nat} (h : RejectedAt config state (line :: more) i) :
    line ≠ "" := by
  obtain ⟨_, -, hne, -⟩ := h
  exact hne line (by simp)

theorem rejectedAt_zero : RejectedAt config state (line :: more) 0 ↔
    line ≠ "" ∧ (step config state line).result.isOk = false := by
  simp [RejectedAt, follow]

theorem rejectedAt_succ (h : line ≠ "") (i : Nat) : RejectedAt config state (line :: more) (i + 1) ↔
    RejectedAt config (step config state line).state more i := by
  simp [RejectedAt, follow_cons h, h]

/-- Leaving out rejected lines leaves out their outputs and changes nothing else. -/
theorem follow_without_rejected {lines : List String} (gone : Nat → Bool)
    (h : ∀ i, gone i = true → RejectedAt config state lines i) :
    (follow config state (without gone lines)).outputs =
        without gone (follow config state lines).outputs ∧
      (follow config state (without gone lines)).final = (follow config state lines).final := by
  induction lines generalizing state gone with
  | nil => exact ⟨rfl, rfl⟩
  | cons line more ih =>
    by_cases hline : line = ""
    -- No line from the empty one on is answered, so none is in `gone`.
    · have hnone : gone = fun _ => false := by
        funext i
        apply Bool.eq_false_iff.2
        intro hi
        exact (h i hi).ne_empty hline
      have hkeep (β : Type) (xs : List β) : without (fun _ => false) xs = xs := by
        induction xs with
        | nil => rfl
        | cons x xs ih => exact congrArg (x :: ·) ih
      rw [hnone, hkeep, hkeep]
      exact ⟨rfl, rfl⟩
    -- A later position is that of the same line among the later ones.
    · have hlater := @ih (step config state line).state (fun i => gone (i + 1))
        fun i hi => (rejectedAt_succ hline i).1 (h (i + 1) hi)
      cases hfirst : gone 0 with
      | true =>
        have hstate : (step config state line).state = state :=
          step_state_of_error (rejectedAt_zero.1 (h 0 hfirst)).2
        rw [hstate] at hlater
        simpa [without, hfirst, follow_cons hline, hstate] using hlater
      | false => simpa [without, hfirst, follow_cons hline] using hlater

theorem outputs_getElem?_of_rejectedAt {lines : List String} {i : Nat}
    (h : RejectedAt config state lines i) :
    ∃ line reason, lines[i]? = some line ∧
      (follow config state lines).outputs[i]? =
        some ("error: " ++ line ++ "\n" ++ Rejection.message reason) := by
  induction lines generalizing state i with
  | nil =>
    obtain ⟨line, hline, -⟩ := h
    cases hline
  | cons line more ih =>
    have hline : line ≠ "" := h.ne_empty
    cases i with
    | zero =>
      have herror := (rejectedAt_zero.1 h).2
      cases hresult : (step config state line).result with
      | error reason => exact ⟨line, reason, rfl, by simp [follow_cons hline, Step.output, hresult]⟩
      | ok answer => simp [hresult, Except.isOk, Except.toBool] at herror
    | succ i =>
      obtain ⟨found, reason, hfound, hout⟩ := ih ((rejectedAt_succ hline i).1 h)
      exact ⟨found, reason, hfound, by simpa [follow_cons hline] using hout⟩

end

/-- Any rejected lines can be left out of a session: the outputs are those of the whole session
without theirs, which are errors, and the session ends in the same state. -/
theorem run_without_rejected (config : Config) (lines : List String) (gone : Nat → Bool)
    (h : ∀ i, gone i = true → RejectedAt config (.initial config) lines i) :
    (run config (without gone lines)).outputs =
        without (outputPositions config gone) (run config lines).outputs ∧
      (∀ i, gone i = true → ∃ line reason, lines[i]? = some line ∧
        (run config lines).outputs[i + config.banner.toNat]? =
          some ("error: " ++ line ++ "\n" ++ Rejection.message reason)) ∧
      (run config (without gone lines)).final = (run config lines).final := by
  obtain ⟨houtputs, hfinal⟩ := follow_without_rejected gone h
  have herror (i : Nat) (hi : gone i = true) := outputs_getElem?_of_rejectedAt (h i hi)
  cases hbanner : config.banner with
  | true =>
    simp only [run, hbanner, if_true]
    exact ⟨by simp [without, outputPositions, hbanner, houtputs], herror, hfinal⟩
  | false =>
    have hpositions : outputPositions config gone = gone := by
      funext i
      simp [outputPositions, hbanner]
    simp only [run, hbanner, hpositions, Bool.false_eq_true, if_false]
    exact ⟨houtputs, herror, hfinal⟩

theorem run_without_three_rejected :
    (run { maxSlots := some 1 } ["1 + 2", "1 + x", "mema+", "2 * (3", "memb+", "mema"]).final =
      (run { maxSlots := some 1 } ["1 + 2", "mema+", "mema"]).final := by
  refine (run_without_rejected { maxSlots := some 1 } _ (fun i => i == 1 || i == 3 || i == 4)
    fun i hi => ?_).2.2.symm
  have hi' : i = 1 ∨ i = 3 ∨ i = 4 := by simpa [or_assoc] using hi
  obtain rfl | rfl | rfl := hi'
  · exact ⟨"1 + x", rfl, by decide, by decide +kernel⟩
  · exact ⟨"2 * (3", rfl, by decide, by decide +kernel⟩
  · exact ⟨"memb+", rfl, by decide, by decide +kernel⟩

end SlotCalc.Session
