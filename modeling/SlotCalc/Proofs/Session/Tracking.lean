import Mathlib.Data.List.Induction
import Mathlib.Data.List.ReduceOption
import SlotCalc.Proofs.Session.Course

namespace SlotCalc.Session

/-- The slot that a line posts to and what it adds to it. A line that begins with `mem<name>+` posts
the previous result, one that begins with `mem<name>-` its negation, and no other line posts. -/
def posting? (previous : Float) (line : String) : Option (String × Float) :=
  match Text.pieces line.toList with
  | ⟨_, 'm' :: 'e' :: 'm' :: rest⟩ :: _ =>
    if rest.getLast? = some '+' then some (String.ofList rest.dropLast, previous)
    else if rest.getLast? = some '-' then some (String.ofList rest.dropLast, -previous)
    else none
  | _ => none

def commandedSlot? (line : String) : Option String := (posting? 0 line).map Prod.fst

/-- The answer to a line, which is the new value of a slot or the value of a formula. A line that is
rejected has none. -/
def answer? (state : State) (line : String) : Option Answer :=
  match posting? state.previous line with
  | some (name, change) =>
    (state.store.accumulate name change).toOption.map fun store => .stored name (store.get name)
  | none =>
    (Token.ofLine line).toOption.bind fun tokens =>
      (Expr.evaluate state.store tokens).toOption.map (.evaluated line)

/-- Whether the value of an answer becomes the previous result. -/
def becomesPrevious (config : Config) : Answer → Bool
  | .evaluated .. => true
  | .stored .. => config.commandsUpdatePrevious

section
variable {config : Config} {state : State} {line : String}

theorem command?_eq (line : String) : command? line =
    ((Text.pieces line.toList).head?.bind fun p => Token.ofPiece? p.text).filter
      (·.kind.isCommand) := by
  unfold command? Token.take
  cases Text.pieces line.toList with
  | nil => rfl
  | cons p more =>
    simp only [Token.takePieces, Token.ofPiece, List.head?_cons, Option.bind_some]
    cases Token.ofPiece? p.text <;> rfl

theorem isCommand_of_symbolKind? {piece : List Char} {kind : Token.Kind}
    (h : Token.symbolKind? piece = some kind) : kind.isCommand = false := by
  unfold Token.symbolKind? at h
  split at h <;> cases h <;> rfl

theorem isCommand_of_ofPiece? {piece : List Char} {t : Token}
    (hparts : Token.slotParts? piece = none) (h : Token.ofPiece? piece = some t) :
    t.kind.isCommand = false := by
  unfold Token.ofPiece? at h
  rw [hparts] at h
  cases hsymbol : Token.symbolKind? piece with
  | some kind =>
    rw [hsymbol] at h
    obtain rfl := Option.some.inj h
    exact isCommand_of_symbolKind? hsymbol
  | none =>
    rw [hsymbol] at h
    obtain ⟨n, -, rfl⟩ := Option.map_eq_some_iff.1 h
    rfl

theorem posting?_eq (previous : Float) (line : String) :
    posting? previous line = (command? line).map fun c => (c.name, delta c previous) := by
  rw [command?_eq]
  unfold posting?
  split
  · rename_i start rest more hpieces
    rw [hpieces, List.head?_cons, Option.bind_some]
    simp only [Token.ofPiece?, Token.symbolKind?, Token.slotParts?, Token.slotParts]
    split_ifs <;> rfl
  · rename_i hother
    cases hpieces : Text.pieces line.toList with
    | nil => rfl
    | cons p more =>
      have hparts : Token.slotParts? p.text = none := by
        unfold Token.slotParts?
        split
        · rename_i rest htext
          exact absurd (hpieces.trans (by rw [← htext])) (hother p.start rest more)
        · rfl
      rw [List.head?_cons, Option.bind_some]
      cases htoken : Token.ofPiece? p.text with
      | none => rfl
      | some t => rw [Option.filter_some_neg (by simp [isCommand_of_ofPiece? hparts htoken])]; rfl

theorem posting?_fst (previous : Float) (line : String) :
    (posting? previous line).map Prod.fst = commandedSlot? line := by
  unfold commandedSlot? posting?
  split
  · split_ifs <;> rfl
  · rfl

theorem step_tracks (config : Config) (state : State) (line : String) :
    let s := step config state line
    s.result.toOption = answer? state line ∧
    s.state.store = state.store.addAll (posting? state.previous line).toList ∧
    s.state.previous =
      (((answer? state line).filter (becomesPrevious config)).map Answer.value).getD
        state.previous := by
  unfold step answer?
  rw [posting?_eq]
  -- The cases are those of the program: a command or not, and then how it comes out.
  cases command? line with
  | some command =>
    simp only [Option.map_some, Option.toList_some, Store.addAll_singleton, runCommand]
    cases state.store.accumulate command.name (delta command state.previous) with
    | error e => exact ⟨rfl, rfl, rfl⟩
    | ok store =>
      refine ⟨rfl, rfl, ?_⟩
      cases hcounts : config.commandsUpdatePrevious <;>
        simp [Except.toOption, Option.filter, becomesPrevious, hcounts, Answer.value]
  | none =>
    simp only [Option.map_none, Option.toList_none, evaluateLine]
    cases Token.ofLine line with
    | error e => exact ⟨rfl, rfl, rfl⟩
    | ok tokens =>
      simp only [Except.toOption, Option.bind_some]
      cases Expr.evaluate state.store tokens with
      | error e => exact ⟨rfl, rfl, rfl⟩
      | ok value => exact ⟨rfl, rfl, rfl⟩

theorem step_output (config : Config) (state : State) (line : String) :
    (∀ answer, answer? state line = some answer →
      (step config state line).output line = answer.display) ∧
    (answer? state line = none → ∃ reason : Rejection,
      (step config state line).output line = "error: " ++ line ++ "\n" ++ reason.message) := by
  rw [← (step_tracks config state line).1]
  unfold Step.output
  cases (step config state line).result with
  | error reason => simp [Except.toOption]
  | ok answer => simp [Except.toOption]

end

theorem getLast?_filter_concat (f : α → β) (p : α → Bool) (xs : List α) (x : Option α)
    (start : β) :
    (((xs ++ x.toList).filter p).getLast?.map f).getD start =
      ((x.filter p).map f).getD (((xs.filter p).getLast?.map f).getD start) := by
  cases x with
  | none => simp
  | some x => by_cases hx : p x <;> simp [hx, Option.filter]

section
variable {config : Config} {lines : List String}

theorem run_final_store (h : ∀ line ∈ lines, line ≠ "") :
    (run config lines).final.store = (Store.empty config.maxSlots).addAll
      (eachLine config (fun state => posting? state.previous) lines).reduceOption := by
  induction lines using List.reverseRecOn with
  | nil =>
    rw [run_final]
    rfl
  | append_singleton lines line ih =>
    have hlines : ∀ l ∈ lines, l ≠ "" := fun l hl => h l (List.mem_append_left _ hl)
    rw [run_final_concat hlines (h line (by simp)), (step_tracks _ _ _).2.1, ih hlines,
      eachLine_concat, List.reduceOption_append, List.reduceOption_singleton, Store.addAll_append]

theorem run_final_previous (h : ∀ line ∈ lines, line ≠ "") :
    (run config lines).final.previous =
      (((eachLine config answer? lines).reduceOption.filter
        (becomesPrevious config)).getLast?.map Answer.value).getD 0 := by
  induction lines using List.reverseRecOn with
  | nil =>
    rw [run_final]
    rfl
  | append_singleton lines line ih =>
    have hlines : ∀ l ∈ lines, l ≠ "" := fun l hl => h l (List.mem_append_left _ hl)
    rw [run_final_concat hlines (h line (by simp)), (step_tracks _ _ _).2.2, ih hlines,
      eachLine_concat, List.reduceOption_append, List.reduceOption_singleton,
      getLast?_filter_concat]

end

/-- The previous result is the value of the last answer that counts: the last formula, or the last
answer of any kind where commands count too. The slots are what the commands that lines begin with
have posted, each with the previous result before its line. Any other line leaves the slots as they
are. A line prints its answer or an error. -/
theorem run_tracks (config : Config) (lines : List String) (h : ∀ line ∈ lines, line ≠ "") :
    let final := (run config lines).final
    let answers := (eachLine config answer? lines).reduceOption
    let postings := (eachLine config (fun state => posting? state.previous) lines).reduceOption
    final.previous =
      ((answers.filter (becomesPrevious config)).getLast?.map Answer.value).getD 0 ∧
    final.store = (Store.empty config.maxSlots).addAll postings ∧
    ∀ i line, lines[i]? = some line →
      let before := (run config (lines.take i)).final
      let after := (run config (lines.take (i + 1))).final
      let output := (run config lines).outputs[i + config.banner.toNat]?
      (posting? before.previous line = none → after.store = before.store) ∧
      (∀ answer, answer? before line = some answer → output = some answer.display) ∧
      (answer? before line = none → ∃ reason : Rejection,
        output = some ("error: " ++ line ++ "\n" ++ reason.message)) := by
  refine ⟨run_final_previous h, run_final_store h, ?_⟩
  intro i line hline before after output
  have hafter : after = (step config before line).state := run_final_take_succ h hline
  have houtput : output = some ((step config before line).output line) := by
    simp only [output, getElem?_run_outputs h, hline]
    rfl
  refine ⟨?_, ?_, ?_⟩
  · intro hposting
    rw [hafter, (step_tracks _ _ _).2.1, hposting]
    rfl
  · intro answer hanswer
    rw [houtput, (step_output config before line).1 answer hanswer]
  · intro hanswer
    obtain ⟨reason, hreason⟩ := (step_output config before line).2 hanswer
    exact ⟨reason, by rw [houtput, hreason]⟩

theorem run_tracks_full_store :
    let config : Config := { maxSlots := some 1, commandsUpdatePrevious := true }
    let lines := ["1 + 2", "mema+ memb+", "memb-", "2 * (mema", "mema+"]
    (run config lines).final.previous = 6 ∧
      (run config lines).final.store =
        (Store.empty (some 1)).addAll [("a", 3), ("b", -3), ("a", 3)] := by
  intro config lines
  obtain ⟨hprevious, hstore, -⟩ := run_tracks config lines (by decide)
  have hpostings : (eachLine config (fun state => posting? state.previous) lines).reduceOption =
      [("a", 3), ("b", -3), ("a", 3)] := by decide +kernel
  rw [hpostings] at hstore
  exact ⟨hprevious.trans (by decide +kernel), hstore⟩

end SlotCalc.Session
