import SlotCalc.Proofs.Expr.Evaluation
import SlotCalc.Proofs.Session.Outcome
import SlotCalc.Proofs.Session.Shape
import SlotCalc.Proofs.Session.Tracking
import SlotCalc.Proofs.Store.Cap

namespace SlotCalc

/-- The second cap allows no fewer slots than the first. -/
inductive CapLe : Option Int → Option Int → Prop
  | unlimited (a : Option Int) : CapLe a none
  | limited {a b : Int} (h : a ≤ b) : CapLe (some a) (some b)

section
variable {cap b : Option Int} {s s' : Store} {name : String} {delta : Float}

theorem CapLe.room (hle : CapLe cap b) {n : Nat} (h : ∀ c, cap = some c → (n : Int) < c) :
    ∀ c, b = some c → (n : Int) < c := by
  cases hle with
  | unlimited => simp
  | limited hab =>
    rintro c ⟨⟩
    exact Int.lt_of_lt_of_le (h _ rfl) hab

namespace Store

theorem accumulate_withCap (hle : CapLe s.cap b) (h : s.accumulate name delta = .ok s') :
    (s.withCap b).accumulate name delta = .ok (s'.withCap b) := by
  by_cases hname : s.contains name = true
  · rw [accumulate_of_contains hname] at h
    cases h
    exact accumulate_of_contains hname
  · have hnew : s.contains name = false := by simpa using hname
    rcases room_or_full s.cap s.size with hroom | ⟨c, hc, hfull⟩
    · rw [accumulate_of_room hnew hroom] at h
      cases h
      exact accumulate_of_room (s := s.withCap b) hnew (hle.room hroom)
    · rw [accumulate_of_full hnew hc hfull] at h
      cases h

end Store

theorem Expr.evaluate_withCap (s : Store) (b : Option Int) (tokens : List Token) :
    evaluate (s.withCap b) tokens = evaluate s tokens :=
  evaluate_congr fun _ _ _ => rfl

end

namespace Session

def State.withCap (state : State) (b : Option Int) : State :=
  { state with store := state.store.withCap b }

def results (config : Config) (lines : List String) : List (Except Rejection Answer) :=
  eachLine config (fun state line => (step config state line).result) (answered lines)

/-- What the commands that lines begin with post to the slots, in turn. -/
def postings (config : Config) (lines : List String) : List (String × Float) :=
  (eachLine config (fun state => posting? state.previous) lines).reduceOption

/-- The distinct slots that lines have commands for, in the order in which they appear. -/
def commandedSlots (lines : List String) : List String := (lines.filterMap commandedSlot?).eraseDups

section
variable {config : Config} {b : Option Int} {state : State} {line : String} {lines : List String}

theorem step_withCap (hle : CapLe state.store.cap b)
    (h : ∀ e, (step config state line).result ≠ .error (.full e)) :
    step { config with maxSlots := b } (state.withCap b) line =
      let s := step config state line
      { s with state := s.state.withCap b } := by
  have houtcome := outcome_step config state line
  generalize step config state line = s at h houtcome
  symm
  cases houtcome with
  | stored command store hcommand haccumulate =>
    apply Outcome.eq_step
    exact .stored command (store.withCap b) hcommand (Store.accumulate_withCap hle haccumulate)
  | full command e hcommand haccumulate => exact absurd rfl (h e)
  | evaluated tokens value hcommand htokens hvalue =>
    apply Outcome.eq_step
    exact .evaluated tokens value hcommand htokens ((Expr.evaluate_withCap _ _ _).trans hvalue)
  | malformed e hcommand htokens =>
    apply Outcome.eq_step
    exact .malformed e hcommand htokens
  | faulty tokens e hcommand htokens hvalue =>
    apply Outcome.eq_step
    exact .faulty tokens e hcommand htokens ((Expr.evaluate_withCap _ _ _).trans hvalue)

theorem run_final_holds (config : Config) (h : ∀ line ∈ lines, line ≠ "") :
    (run config lines).final.store.Holds config.maxSlots (postings config lines) := by
  rw [run_final_store h]
  exact Store.addAll_holds _ _

theorem run_withCap_of_open (hle : CapLe config.maxSlots b) (hopen : "" ∉ lines)
    (h : ∀ e, .error (.full e) ∉
      eachLine config (fun state line => (step config state line).result) lines) :
    run { config with maxSlots := b } lines =
      let t := run config lines
      { t with final := t.final.withCap b } := by
  -- From the last line back, for the state before a line is that of the shorter session.
  induction lines using List.reverseRecOn with
  | nil =>
    unfold run
    cases config.banner <;> rfl
  | append_singleton lines line ih =>
    simp only [eachLine_concat, List.mem_append, List.mem_singleton, not_or, eq_comm] at h hopen
    have hline : line ≠ "" := hopen.2
    have hlines : ∀ l ∈ lines, l ≠ "" := fun l hl heq => hopen.1 (heq ▸ hl)
    have hcap : CapLe (run config lines).final.store.cap b := by
      rwa [(run_final_holds config hlines).cap_eq]
    have hstep := step_withCap hcap fun e => Ne.symm (h e).2
    rw [run_concat hopen.1 hline, run_concat hopen.1 hline, ih hopen.1 fun e => (h e).1]
    simp only [hstep]
    rfl

theorem run_withCap (hle : CapLe config.maxSlots b)
    (h : ∀ e, .error (.full e) ∉ results config lines) :
    run { config with maxSlots := b } lines =
      let t := run config lines
      { t with final := t.final.withCap b } := by
  have hopen : "" ∉ answered lines := fun hmem => forall_answered_ne lines "" hmem rfl
  rw [run_eq_answered, run_eq_answered config, run_withCap_of_open hle hopen h]

theorem results_take (config : Config) (lines : List String) (i : Nat) :
    results config (lines.take i) = (results config lines).take i := by
  rw [results, answered_take, eachLine_take]
  rfl

/-- A line finds the store full only if it posts to a slot that the store does not accept. -/
theorem exists_posting_of_full {e : Store.Full}
    (h : (step config state line).result = .error (.full e)) :
    ∃ name change, posting? state.previous line = some (name, change) ∧
      state.store.accumulate name change = .error e := by
  have houtcome := outcome_step config state line
  generalize step config state line = s at h houtcome
  cases houtcome with
  | full command e' hcommand haccumulate =>
    cases h
    refine ⟨command.name, delta command state.previous, ?_, haccumulate⟩
    rw [posting?_eq, hcommand]
    rfl
  | stored | evaluated | malformed | faulty => cases h

theorem map_fst_postings (lines : List String) :
    (postings config lines).map Prod.fst = lines.filterMap commandedSlot? := by
  unfold postings
  induction lines using List.reverseRecOn with
  | nil => rfl
  | append_singleton lines line ih =>
    have hname := posting?_fst (run config lines).final.previous line
    rw [eachLine_concat, List.reduceOption_append, List.reduceOption_singleton, List.map_append, ih,
      List.filterMap_append]
    cases hposting : posting? (run config lines).final.previous line <;>
      simp [hposting, ← hname]

/-- The names that are called up to some line are the first ones that all lines have commands
for. -/
theorem calledNames_prefix_commandedSlots (config : Config) (change : Float) {i : Nat}
    {name : String} (hline : (answered lines)[i]? = some line)
    (hslot : commandedSlot? line = some name) :
    Store.calledNames (postings config ((answered lines).take i) ++ [(name, change)]) <+:
      commandedSlots lines := by
  have hmap : (postings config ((answered lines).take i) ++ [(name, change)]).map Prod.fst =
      ((answered lines).take (i + 1)).filterMap commandedSlot? := by
    rw [List.map_append, map_fst_postings, List.take_add_one, hline, List.filterMap_append]
    simp [hslot]
  have hanswered : answered lines <+: lines := List.take_prefix _ _
  obtain ⟨rest, hrest⟩ := ((List.take_prefix (i + 1) _).trans hanswered).filterMap commandedSlot?
  rw [commandedSlots, ← hrest, ← hmap, List.eraseDups_append]
  exact List.prefix_append _ _

/-- No line finds the store full if the commands name no more slots than the cap allows. -/
theorem not_full_of_few_slots
    (h : ∀ c, config.maxSlots = some c → ((commandedSlots lines).length : Int) ≤ c)
    (e : Store.Full) :
    .error (.full e) ∉ results config lines := by
  intro hmem
  obtain ⟨i, hi⟩ := List.mem_iff_getElem?.1 hmem
  obtain ⟨line, hline, hresult⟩ := Option.map_eq_some_iff.1 ((getElem?_eachLine ..).symm.trans hi)
  obtain ⟨name, change, hposting, haccumulate⟩ := exists_posting_of_full hresult
  have hslot : commandedSlot? line = some name := by
    rw [← posting?_fst, hposting]
    rfl
  have hearlier : ∀ l ∈ (answered lines).take i, l ≠ "" := fun l hl =>
    forall_answered_ne lines l (List.mem_of_mem_take hl)
  have hcall := (run_final_holds config hearlier).accumulate name change
  have hprefix := calledNames_prefix_commandedSlots config change hline hslot
  -- The cap cuts none of the names off, so the call must have succeeded.
  rw [Store.upTo_of_length_le fun c hc => Int.le_trans (Int.ofNat_le.2 hprefix.length_le) (h c hc),
    if_pos (Store.mem_calledNames_concat ..), haccumulate] at hcall
  obtain ⟨s', hs', -⟩ := hcall
  cases hs'

end

/-- Up to the first line that finds the store full, a wider cap changes nothing but the cap: the
outputs are the same, and so are the slots and the previous result. Without such a line the whole
sessions are the same, and there is none if the lines begin with commands for no more slots than the
smaller cap allows. -/
theorem run_wider_cap (config : Config) (b : Option Int) (hle : CapLe config.maxSlots b)
    (lines : List String) :
    let wider : Config := { config with maxSlots := b }
    (∀ i, (∀ j < i, ∀ e, (results config lines)[j]? ≠ some (.error (.full e))) →
      (run wider lines).outputs.take (i + config.banner.toNat) =
        (run config lines).outputs.take (i + config.banner.toNat) ∧
      let final := (run config (lines.take i)).final
      let final' := (run wider (lines.take i)).final
      final'.store.slots = final.store.slots ∧ final'.previous = final.previous) ∧
    ((∀ e, .error (.full e) ∉ results config lines) →
      let t := run config lines
      run wider lines = { t with final := t.final.withCap b }) ∧
    ((∀ c, config.maxSlots = some c → ((commandedSlots lines).length : Int) ≤ c) →
      ∀ e, .error (.full e) ∉ results config lines) := by
  intro wider
  refine ⟨?_, fun h => run_withCap hle h, not_full_of_few_slots⟩
  intro i hfirst
  -- The first `i` lines are a session of their own, in which no line finds the store full.
  have hnot (e : Store.Full) : .error (.full e) ∉ results config (lines.take i) := by
    rw [results_take, List.mem_take_iff_getElem]
    rintro ⟨j, hj, hfull⟩
    apply hfirst j (by omega) e
    rw [← hfull]
    exact List.getElem?_eq_getElem _
  have hsame : run wider (lines.take i) = _ := run_withCap hle hnot
  refine ⟨?_, ?_, ?_⟩
  · have houtputs := congrArg Transcript.outputs hsame
    rwa [run_outputs_take, run_outputs_take] at houtputs
  · rw [hsame]
    rfl
  · rw [hsame]
    rfl

theorem run_wider_cap_second_slot :
    let config : Config := { maxSlots := some 1 }
    let wider : Config := { maxSlots := some 2 }
    let lines := ["2", "mema+", "mema-", "memb+", "memb"]
    (run wider lines).outputs.take 4 = (run config lines).outputs.take 4 ∧
      (run wider lines).outputs ≠ (run config lines).outputs ∧
      (run wider ["2", "mema+", "mema- memb+"]).outputs =
        (run config ["2", "mema+", "mema- memb+"]).outputs := by
  intro config wider lines
  have hle : CapLe config.maxSlots (some 2) := .limited (by decide)
  have hanswered : ∀ j < 3, (results config lines)[j]?.map Except.isOk = some true := by
    decide +kernel
  obtain ⟨hbefore, -, -⟩ := run_wider_cap config (some 2) hle lines
  obtain ⟨-, hsame, hfew⟩ := run_wider_cap config (some 2) hle ["2", "mema+", "mema- memb+"]
  have hnot := hfew (by rintro c ⟨⟩; decide +kernel)
  refine ⟨(hbefore 3 ?_).1, by decide +kernel, (congrArg Transcript.outputs (hsame hnot)).trans rfl⟩
  intro j hj e hfull
  have hj' := hanswered j hj
  rw [hfull] at hj'
  cases hj'

end Session

end SlotCalc
