import SlotCalc.Proofs.Session.Leading
import SlotCalc.Proofs.Session.Outcome
import SlotCalc.Proofs.Store.Adding

namespace SlotCalc.Session

/-- What a command comes to that adds `change` to a slot. -/
inductive Posts (config : Config) (state : State) (name : String) (change : Float) :
    Except Rejection Answer → State → Prop
  | stored (store : Store) (value : Float) (h : state.store.Adds name change (.ok store))
    (hvalue : (name, value) ∈ store.slots) :
    Posts config state name change (.ok (.stored name value))
      ⟨store, if config.commandsUpdatePrevious then value else state.previous⟩
  | full (e : Store.Full) (h : state.store.Adds name change (.error e)) :
    Posts config state name change (.error (.full e)) state

/-- What a formula comes to. The first piece that no rule applies to is reported, and only without
one the first thing that is wrong with the tokens. -/
inductive Evaluates (state : State) (line : String) : Except Rejection Answer → State → Prop
  | malformed (before after : List Text.Piece) (p : Text.Piece)
    (hpieces : Text.pieces line.toList = before ++ p :: after)
    (hbefore : ∀ q ∈ before, Token.Readable q.text) (hp : ¬ Token.Readable p.text) :
    Evaluates state line (.error (.malformed ⟨line, p.start, String.ofList p.text⟩)) state
  | faulty (tokens : List Token) (e : Expr.Fault)
    (htokens : List.Forall₂ (fun p => Token.Spells p.text) (Text.pieces line.toList) tokens)
    (h : Expr.evaluate state.store tokens = .error e) :
    Evaluates state line (.error (.faulty tokens e)) state
  | evaluated (tokens : List Token) (value : Float)
    (htokens : List.Forall₂ (fun p => Token.Spells p.text) (Text.pieces line.toList) tokens)
    (h : Expr.evaluate state.store tokens = .ok value) :
    Evaluates state line (.ok (.evaluated line value)) { state with previous := value }

section
variable {config : Config} {state after : State} {sign : Sign} {name line : String}
  {result : Except Rejection Answer}

theorem posts_step (config : Config) (state : State) (h : BeginsWith sign name line) :
    let s := step config state line
    Posts config state name (sign.change state.previous) s.result s.state := by
  have houtcome := outcome_step config state line
  generalize step config state line = s at houtcome
  cases houtcome with
  | stored command store hcommand haccumulate =>
    obtain rfl := Option.some.inj (h.command?.symm.trans hcommand)
    rw [delta_commandToken] at haccumulate
    have hadds := Store.adds_iff.2 haccumulate
    exact .stored store _ hadds hadds.mem_get
  | full command e hcommand haccumulate =>
    obtain rfl := Option.some.inj (h.command?.symm.trans hcommand)
    rw [delta_commandToken] at haccumulate
    exact .full e (Store.adds_iff.2 haccumulate)
  | evaluated _ _ hcommand | malformed _ hcommand | faulty _ _ hcommand =>
    rw [h.command?] at hcommand
    cases hcommand

theorem Posts.eq_step (hposts : Posts config state name (sign.change state.previous) result after)
    (h : BeginsWith sign name line) :
    (step config state line).result = result ∧ (step config state line).state = after := by
  rw [← delta_commandToken sign name] at hposts
  cases hposts with
  | stored store value hadds hvalue =>
    have houtcome : Outcome config state line _ :=
      .stored (commandToken sign name) store h.command? (Store.adds_iff.1 hadds)
    rw [← houtcome.eq_step, ← Store.get_of_mem hvalue]
    exact ⟨rfl, rfl⟩
  | full e hadds =>
    have houtcome : Outcome config state line _ :=
      .full (commandToken sign name) e h.command? (Store.adds_iff.1 hadds)
    rw [← houtcome.eq_step]
    exact ⟨rfl, rfl⟩

theorem Posts.mem_names {change : Float} {other : String}
    (h : Posts config state name change result after) (hother : other ∈ after.store.names) :
    other = name ∨ other ∈ state.store.names := by
  cases h with
  | stored store value hadds hvalue => exact hadds.mem_names hother
  | full e hadds => exact .inr hother

theorem evaluates_step (config : Config) (state : State)
    (h : ∀ sign name, ¬ BeginsWith sign name line) :
    let s := step config state line
    Evaluates state line s.result s.state := by
  have houtcome := outcome_step config state line
  generalize step config state line = s at houtcome
  cases houtcome with
  | stored command _ hcommand | full command _ hcommand =>
    rw [command?_eq_none_iff.2 h] at hcommand
    cases hcommand
  | evaluated tokens value hcommand htokens hvalue =>
    exact .evaluated tokens value (Token.ofLine_eq_ok_iff.1 htokens) hvalue
  | malformed e hcommand htokens =>
    obtain ⟨before, p, after, hpieces, hbefore, hp, rfl⟩ := Token.ofLine_eq_error_iff.1 htokens
    exact .malformed before after p hpieces hbefore hp
  | faulty tokens e hcommand htokens hvalue =>
    exact .faulty tokens e (Token.ofLine_eq_ok_iff.1 htokens) hvalue

theorem Evaluates.eq_step (config : Config) (hevaluates : Evaluates state line result after)
    (h : ∀ sign name, ¬ BeginsWith sign name line) :
    (step config state line).result = result ∧ (step config state line).state = after := by
  have hcommand := command?_eq_none_iff.2 h
  cases hevaluates with
  | malformed before after p hpieces hbefore hp =>
    have htokens := Token.ofLine_eq_error_iff.2 ⟨before, p, after, hpieces, hbefore, hp, rfl⟩
    have houtcome : Outcome config state line _ := .malformed _ hcommand htokens
    rw [← houtcome.eq_step]
    exact ⟨rfl, rfl⟩
  | faulty tokens e htokens hvalue =>
    have houtcome : Outcome config state line _ :=
      .faulty tokens e hcommand (Token.ofLine_eq_ok_iff.2 htokens) hvalue
    rw [← houtcome.eq_step]
    exact ⟨rfl, rfl⟩
  | evaluated tokens value htokens hvalue =>
    have houtcome : Outcome config state line _ :=
      .evaluated tokens value hcommand (Token.ofLine_eq_ok_iff.2 htokens) hvalue
    rw [← houtcome.eq_step]
    exact ⟨rfl, rfl⟩

theorem step_eq_iff_posts (h : BeginsWith sign name line) :
    (step config state line).result = result ∧ (step config state line).state = after ↔
      Posts config state name (sign.change state.previous) result after := by
  constructor
  · rintro ⟨rfl, rfl⟩
    exact posts_step config state h
  · intro hposts
    exact hposts.eq_step h

theorem step_eq_iff_evaluates (h : ∀ sign name, ¬ BeginsWith sign name line) :
    (step config state line).result = result ∧ (step config state line).state = after ↔
      Evaluates state line result after := by
  constructor
  · rintro ⟨rfl, rfl⟩
    exact evaluates_step config state h
  · intro hevaluates
    exact hevaluates.eq_step config h

theorem Posts.exists_accumulate {change : Float} {reason : Rejection}
    (h : Posts config state name change (.error reason) after) :
    ∃ e, state.store.accumulate name change = .error e := by
  cases h with
  | full e hadds => exact ⟨e, Store.adds_iff.1 hadds⟩

theorem exists_step_error_iff (h : BeginsWith sign name line) :
    (∃ reason, (step config state line).result = .error reason) ↔
      name ∉ state.store.names ∧ state.store.isFull = true := by
  have hfull : (∃ e, state.store.accumulate name (sign.change state.previous) = .error e) ↔ _ :=
    Store.exists_accumulate_eq_error_iff
  rw [← hfull]
  constructor
  · rintro ⟨reason, hreason⟩
    exact ((step_eq_iff_posts h).1 ⟨hreason, rfl⟩).exists_accumulate
  · rintro ⟨e, he⟩
    have hposts : Posts config state name (sign.change state.previous) _ _ :=
      .full e (Store.adds_iff.2 he)
    exact ⟨.full e, ((step_eq_iff_posts h).2 hposts).1⟩

theorem Evaluates.store_eq (h : Evaluates state line result after) :
    after.store = state.store := by
  cases h <;> rfl

end

theorem step_mem_names (config : Config) (state : State) (line : String) {other : String}
    (hother : other ∈ (step config state line).state.store.names) :
    other ∈ state.store.names ∨ ∃ sign, BeginsWith sign other line := by
  by_cases h : ∃ sign name, BeginsWith sign name line
  · obtain ⟨sign, name, hbegins⟩ := h
    obtain rfl | hname := (posts_step config state hbegins).mem_names hother
    · exact .inr ⟨sign, hbegins⟩
    · exact .inl hname
  · simp only [not_exists] at h
    rw [(evaluates_step config state h).store_eq] at hother
    exact .inl hother

/-- A line that begins with a command adds the previous result, or its negation, to a slot. It is
rejected just if the slot does not exist and the cap is reached, which may have been exceeded from
the start. What follows the command does not matter, nor do blanks before it. Any other line is
evaluated as a whole: it changes no slot, wherever commands stand in it, and the first piece that no
rule applies to outranks every fault in the order of the tokens. -/
theorem step_posts_or_evaluates (config : Config) (state : State) (line : String) :
    let s := step config state line
    (∀ sign name, BeginsWith sign name line →
      (∀ result after, s.result = result ∧ s.state = after ↔
        Posts config state name (sign.change state.previous) result after) ∧
      ((∃ reason, s.result = .error reason) ↔
        name ∉ state.store.names ∧ state.store.isFull = true) ∧
      ∀ line', BeginsWith sign name line' →
        let s' := step config state line'
        s'.result = s.result ∧ s'.state = s.state) ∧
    ((∀ sign name, ¬ BeginsWith sign name line) →
      (∀ result after, s.result = result ∧ s.state = after ↔
        Evaluates state line result after) ∧
      s.state.store = state.store) := by
  intro s
  constructor
  · intro sign name hbegins
    refine ⟨fun _ _ => step_eq_iff_posts hbegins, exists_step_error_iff hbegins, ?_⟩
    intro line' hbegins'
    exact (posts_step config state hbegins).eq_step hbegins'
  · intro hbegins
    exact ⟨fun _ _ => step_eq_iff_evaluates hbegins, (evaluates_step config state hbegins).store_eq⟩

theorem step_posts_or_evaluates_over_cap :
    let store : Store := { slots := [("a", 1), ("b", 5)], cap := some 1, names_nodup := by decide }
    let state : State := ⟨store, 3⟩
    let s (line : String) := step {} state line
    ((s "\tmemb-  5x )").result = (s "memb-").result ∧
      ¬ ∃ reason, (s "\tmemb-  5x )").result = .error reason) ∧
    (∃ reason, (s "memc+").result = .error reason) ∧
    (s "+ 5x memb+").result = .error (.malformed ⟨"+ 5x memb+", 2, "5x"⟩) ∧
    (s "+ 5x memb+").state.store = store := by
  intro store state s
  have hlong : BeginsWith .minus "b" "\tmemb-  5x )" :=
    beginsWith_of_all ['\t'] "  5x )".toList rfl rfl rfl rfl
  have hshort : BeginsWith .minus "b" "memb-" :=
    beginsWith_commandText .minus (Text.unbroken_of_all rfl)
  have hnew : BeginsWith .plus "c" "memc+" :=
    beginsWith_commandText .plus (Text.unbroken_of_all rfl)
  have hformula : ∀ sign name, ¬ BeginsWith sign name "+ 5x memb+" :=
    command?_eq_none_iff.1 (by decide +kernel)
  obtain ⟨-, herror, hsame⟩ := (step_posts_or_evaluates {} state "\tmemb-  5x )").1 _ _ hlong
  obtain ⟨-, hfull, -⟩ := (step_posts_or_evaluates {} state "memc+").1 _ _ hnew
  obtain ⟨hresult, hstore⟩ := (step_posts_or_evaluates {} state "+ 5x memb+").2 hformula
  have hpieces : Text.pieces "+ 5x memb+".toList =
      [⟨0, ['+']⟩] ++ ⟨2, ['5', 'x']⟩ :: [⟨5, "memb+".toList⟩] := by decide +kernel
  have hplus : ∀ p ∈ [(⟨0, ['+']⟩ : Text.Piece)], Token.Readable p.text :=
    List.forall_mem_singleton.2 (.inl (by decide))
  have hfive : ¬ Token.Readable ['5', 'x'] := mt Token.isSome_ofPiece?_iff.2 (by decide +kernel)
  have hmalformed : Evaluates state _ _ _ := .malformed _ _ _ hpieces hplus hfive
  have hrejected := (hresult _ _).2 hmalformed
  refine ⟨⟨(hsame _ hshort).1.symm, ?_⟩, hfull.2 (by decide), hrejected.1, hstore⟩
  rw [herror]
  decide

end SlotCalc.Session
