import SlotCalc.Session

namespace SlotCalc.Session

/-- What a line comes to in a state. Two kinds of outcome are answers and three are rejections,
which leave the state as it was. -/
inductive Outcome (config : Config) (state : State) (line : String) : Step → Prop
  | stored (command : Token) (store : Store) (hcommand : command? line = some command)
    (h : state.store.accumulate command.name (delta command state.previous) = .ok store) :
    Outcome config state line
      { result := .ok (.stored command.name (store.get command.name))
        state := ⟨store,
          if config.commandsUpdatePrevious then store.get command.name else state.previous⟩
        events := ignoredEvents line command ++
          (if state.store.contains command.name then [] else [.created command.name]) ++
          [.changed command.name (delta command state.previous) (store.get command.name)] }
  | full (command : Token) (e : Store.Full) (hcommand : command? line = some command)
    (h : state.store.accumulate command.name (delta command state.previous) = .error e) :
    Outcome config state line (.refused state (ignoredEvents line command) line (.full e))
  | evaluated (tokens : List Token) (value : Float) (hcommand : command? line = none)
    (htokens : Token.ofLine line = .ok tokens)
    (h : Expr.evaluate state.store tokens = .ok value) :
    Outcome config state line
      { result := .ok (.evaluated line value)
        state := { state with previous := value }
        events := [.evaluated line value] }
  | malformed (e : Malformed) (hcommand : command? line = none)
    (h : Token.ofLine line = .error e) :
    Outcome config state line (.refused state [] line (.malformed e))
  | faulty (tokens : List Token) (e : Expr.Fault) (hcommand : command? line = none)
    (htokens : Token.ofLine line = .ok tokens)
    (h : Expr.evaluate state.store tokens = .error e) :
    Outcome config state line (.refused state [] line (.faulty tokens e))

variable {config : Config} {state : State} {line : String} {s : Step}

theorem outcome_step (config : Config) (state : State) (line : String) :
    Outcome config state line (step config state line) := by
  unfold step
  cases hcommand : command? line with
  | some command =>
    simp only [runCommand]
    cases h : state.store.accumulate command.name (delta command state.previous) with
    | ok store => exact .stored command store hcommand h
    | error e => exact .full command e hcommand h
  | none =>
    simp only [evaluateLine]
    cases htokens : Token.ofLine line with
    | error e => exact .malformed e hcommand htokens
    | ok tokens =>
      dsimp only
      cases h : Expr.evaluate state.store tokens with
      | ok value => exact .evaluated tokens value hcommand htokens h
      | error e => exact .faulty tokens e hcommand htokens h

theorem Outcome.eq_step (h : Outcome config state line s) : s = step config state line := by
  cases h with
  | stored command store hcommand h | full command e hcommand h =>
    simp only [step, hcommand, runCommand, h]
  | evaluated tokens value hcommand htokens h | faulty tokens e hcommand htokens h =>
    simp only [step, hcommand, evaluateLine, htokens, h]
  | malformed e hcommand h => simp only [step, hcommand, evaluateLine, h]

end SlotCalc.Session
