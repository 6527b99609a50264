import SlotCalc.Proofs.Session.Answering
import SlotCalc.Proofs.Session.Cap

namespace SlotCalc.Session

section
variable {config : Config} {sign : Sign} {name line : String} {lines : List String} {n : Int}

theorem run_final_answered (config : Config) (lines : List String) :
    (run config lines).final = (run config (answered lines)).final := by
  rw [run_eq_answered]

theorem size_le_cap (hcap : config.maxSlots = some n) (hpos : 0 ≤ n) (lines : List String) :
    ((run config lines).final.store.size : Int) ≤ n := by
  have hholds := run_final_holds config (forall_answered_ne lines)
  rw [run_final_answered, hholds.size_eq, hcap, Store.upTo, List.length_take]
  omega

theorem names_eq_nil_of_no_command (config : Config)
    (h : ∀ line ∈ lines, ∀ sign name, ¬ BeginsWith sign name line) :
    (run config lines).final.store.names = [] := by
  have hposts : postings config (answered lines) = [] := by
    rw [← List.map_eq_nil_iff (f := Prod.fst), map_fst_postings, List.filterMap_eq_nil_iff]
    intro line hline
    have hline : line ∈ lines := List.mem_of_mem_take hline
    rw [commandedSlot?, posting?_eq, command?_eq_none_iff.2 (h line hline)]
    rfl
  have hholds := run_final_holds config (forall_answered_ne lines)
  rw [run_final_answered, hholds.names_eq, hposts]
  cases config.maxSlots with
  | none => rfl
  | some c => exact List.take_nil

theorem step_first_command (hcap : ∀ n, config.maxSlots = some n → 1 ≤ n)
    (h : BeginsWith sign name line)
    (hearlier : ∀ line ∈ lines, ∀ sign name, ¬ BeginsWith sign name line) :
    ∃ value, (step config (run config lines).final line).result = .ok (.stored name value) := by
  have hnames := names_eq_nil_of_no_command config hearlier
  have hholds := run_final_holds config (forall_answered_ne lines)
  rw [← run_final_answered] at hholds
  have hsize : (run config lines).final.store.size = 0 := by
    rw [Store.size, ← List.length_map, ← Store.names, hnames, List.length_nil]
  have hroom : (run config lines).final.store.isFull = false := by
    rw [Store.isFull, hholds.cap_eq, hsize]
    cases hmax : config.maxSlots with
    | none => rfl
    | some n => exact decide_eq_false (Int.not_le.2 (hcap n hmax))
  have hposts := posts_step config (run config lines).final h
  have hnot : ¬ ∃ reason, (step config (run config lines).final line).result = .error reason := by
    rw [exists_step_error_iff h, hroom]
    exact fun hfull => Bool.false_ne_true hfull.2
  generalize step config (run config lines).final line = s at hposts hnot ⊢
  obtain ⟨result, after, events⟩ := s
  cases hposts with
  | stored store value => exact ⟨value, rfl⟩
  | full e => exact absurd ⟨_, rfl⟩ hnot

end

/-- The first command finds room, and there are never more slots than the cap allows. -/
structure HasRoom (config : Config) (lines : List String) : Prop where
  first_command (i : Nat) (line name : String) (sign : Sign)
    (hline : (answered lines)[i]? = some line) (h : BeginsWith sign name line)
    (hearlier : ∀ line ∈ lines.take i, ∀ sign name, ¬ BeginsWith sign name line) :
    ∃ value, (results config lines)[i]? = some (.ok (.stored name value)) ∧
      (run config lines).outputs[i + config.banner.toNat]? =
        some (Answer.stored name value).display
  size_le (i : Nat) (n : Int) (hcap : config.maxSlots = some n) :
    ((run config (lines.take i)).final.store.size : Int) ≤ n

/-- A session has room if its cap allows a slot, whatever its lines are. -/
theorem hasRoom {config : Config} (hcap : ∀ n, config.maxSlots = some n → 1 ≤ n)
    (lines : List String) : HasRoom config lines := by
  constructor
  · intro i line name sign hline h hearlier
    obtain ⟨value, hvalue⟩ := step_first_command hcap h hearlier
    refine ⟨value, ?_, ?_⟩
    · rw [results, getElem?_eachLine, hline, ← answered_take, ← run_final_answered, ← hvalue]
      rfl
    · rw [getElem?_run_outputs_of_answered hline, Step.output, hvalue]
  · intro i n hn
    exact size_le_cap hn (Int.le_trans (by decide) (hcap n hn)) (lines.take i)

end SlotCalc.Session
