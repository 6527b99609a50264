import SlotCalc.Proofs.Expr.Evaluation

namespace SlotCalc.Expr

/-- What one pass over the kinds of the tokens remembers: the positions of the open brackets, the
innermost first, and whether an operand has to come next. -/
structure Scan where
  opened : List Nat := []
  operandNext : Bool := true

namespace Scan

def step (scan : Scan) (index : Nat) (kind : Token.Kind) : Except Fault Scan :=
  if scan.operandNext then
    match kind with
    | .number | .slot => .ok { scan with operandNext := false }
    | .opening =>
      if 200 ≤ scan.opened.length then .error ⟨.tooDeep, index⟩
      else .ok { opened := index :: scan.opened }
    | found => .error ⟨.unexpected found, index⟩
  else
    match kind, scan.opened with
    | .operator _, _ => .ok { scan with operandNext := true }
    | .closing, _ :: outer => .ok { opened := outer, operandNext := false }
    | _, bracket :: _ => .error ⟨.unclosed, bracket⟩
    | found, [] => .error ⟨.trailing found, index⟩

def finish (scan : Scan) (index : Nat) : Except Fault Unit :=
  match scan.operandNext, scan.opened with
  | true, _ => .error ⟨.endOfInput, index⟩
  | false, bracket :: _ => .error ⟨.unclosed, bracket⟩
  | false, [] => .ok ()

def run (scan : Scan) (index : Nat) : List Token.Kind → Except Fault Unit
  | [] => scan.finish index
  | kind :: more =>
    match scan.step index kind with
    | .error e => .error e
    | .ok next => next.run (index + 1) more

theorem step_operator (opened : List Nat) (index : Nat) (op : Operator) :
    step ⟨opened, false⟩ index (.operator op) = .ok ⟨opened, true⟩ := by
  cases opened <;> rfl

/-- Inside brackets nothing but an operator or a closing bracket can follow an operand. -/
theorem step_unclosed {kind : Token.Kind} (bracket : Nat) (outer : List Nat) (index : Nat)
    (hop : ∀ op, kind ≠ .operator op) (hc : kind ≠ .closing) :
    step ⟨bracket :: outer, false⟩ index kind = .error ⟨.unclosed, bracket⟩ := by
  cases kind with
  | operator op => exact absurd rfl (hop op)
  | closing => exact absurd rfl hc
  | _ => rfl

theorem step_trailing {kind : Token.Kind} (index : Nat) (hop : ∀ op, kind ≠ .operator op) :
    step ⟨[], false⟩ index kind = .error ⟨.trailing kind, index⟩ := by
  cases kind with
  | operator op => exact absurd rfl (hop op)
  | _ => rfl

/-- The pass over what follows a reading, in the place of the reading's result. -/
def after (opened : List Nat) (result : Except Fault (Reading n)) : Except Fault Unit :=
  match result with
  | .error e => .error e
  | .ok r => run ⟨opened, false⟩ r.next (r.rest.map Token.kind)

mutual

theorem run_eq_after_operand (opened : List Nat) (index : Nat) (tokens : List Token) :
    run ⟨opened, true⟩ index (tokens.map Token.kind) =
      after opened (operand opened.length index tokens) := by
  match tokens with
  | [] =>
    rw [operand]
    rfl
  | t :: rest =>
    rw [operand, List.map_cons, run]
    cases hk : t.kind with
    | number | slot => rfl
    | opening =>
      by_cases hdepth : 200 ≤ opened.length
      · simp [step, nestingLimit, hdepth, after]
      · have hinner := run_eq_after_sum (index :: opened) (index + 1) rest
        simp only [step, nestingLimit, hdepth, if_true, if_false, hinner, List.length_cons]
        cases hsum : sum (opened.length + 1) (index + 1) rest with
        | error e => rfl
        | ok r =>
          -- What follows the inner sum is no operator, so it closes the bracket or is wrong.
          obtain ⟨d, hd, -⟩ := sum_spans hsum
          obtain ⟨inner, place, remaining, hless⟩ := r
          cases remaining with
          | nil => rfl
          | cons close more =>
            by_cases hc : close.kind = .closing
            · simp [after, run, step, hc]
            · simp [after, run, step_unclosed _ _ _ (sum_endsBefore_cons.1 hd.ends) hc, hc]
    | _ => rfl
termination_by 3 * tokens.length

theorem run_eq_after_product (opened : List Nat) (index : Nat) (tokens : List Token) :
    run ⟨opened, true⟩ index (tokens.map Token.kind) =
      after opened (product opened.length index tokens) := by
  rw [run_eq_after_operand, product]
  cases operand opened.length index tokens with
  | error e => rfl
  | ok r =>
    obtain ⟨first, place, rest, hless⟩ := r
    rw [after, run_eq_after_productTail opened first place rest]
    cases htail : productTail opened.length first place rest <;> simp [after, htail]
termination_by 3 * tokens.length + 1

theorem run_eq_after_productTail (opened : List Nat) (left : Expr) (index : Nat)
    (tokens : List Token) :
    run ⟨opened, false⟩ index (tokens.map Token.kind) =
      after opened (productTail opened.length left index tokens) := by
  match tokens with
  | [] =>
    rw [productTail]
    rfl
  | t :: rest =>
    rw [productTail]
    cases hop : multiplicative? t.kind with
    | none => rfl
    | some op =>
      rw [List.map_cons, run, (multiplicative?_eq_some.1 hop).1, step_operator]
      simp only [run_eq_after_operand opened (index + 1) rest]
      cases operand opened.length (index + 1) rest with
      | error e => rfl
      | ok r =>
        obtain ⟨right, place, more, hless⟩ := r
        rw [after, run_eq_after_productTail opened (.binary op left right) place more]
        cases htail : productTail opened.length (.binary op left right) place more <;>
          simp [after, htail]
termination_by 3 * tokens.length

theorem run_eq_after_sum (opened : List Nat) (index : Nat) (tokens : List Token) :
    run ⟨opened, true⟩ index (tokens.map Token.kind) =
      after opened (sum opened.length index tokens) := by
  rw [run_eq_after_product, sum]
  cases product opened.length index tokens with
  | error e => rfl
  | ok r =>
    obtain ⟨first, place, rest, hless⟩ := r
    rw [after, run_eq_after_sumTail opened first place rest]
    cases htail : sumTail opened.length first place rest <;> simp [after, htail]
termination_by 3 * tokens.length + 2

theorem run_eq_after_sumTail (opened : List Nat) (left : Expr) (index : Nat)
    (tokens : List Token) :
    run ⟨opened, false⟩ index (tokens.map Token.kind) =
      after opened (sumTail opened.length left index tokens) := by
  match tokens with
  | [] =>
    rw [sumTail]
    rfl
  | t :: rest =>
    rw [sumTail]
    cases hop : additive? t.kind with
    | none => rfl
    | some op =>
      rw [List.map_cons, run, (additive?_eq_some.1 hop).1, step_operator]
      simp only [run_eq_after_product opened (index + 1) rest]
      cases product opened.length (index + 1) rest with
      | error e => rfl
      | ok r =>
        obtain ⟨right, place, more, hless⟩ := r
        rw [after, run_eq_after_sumTail opened (.binary op left right) place more]
        cases htail : sumTail opened.length (.binary op left right) place more <;>
          simp [after, htail]
termination_by 3 * tokens.length + 1

end

theorem run_eq_ofTokens (tokens : List Token) :
    run {} 0 (tokens.map Token.kind) = (ofTokens tokens).map fun _ => () := by
  have hrun : run {} 0 (tokens.map Token.kind) = after [] (sum 0 0 tokens) :=
    run_eq_after_sum [] 0 tokens
  rw [hrun, ofTokens]
  cases hsum : sum 0 0 tokens with
  | error e => rfl
  | ok r =>
    obtain ⟨d, hd, -⟩ := sum_spans hsum
    obtain ⟨expr, next, rest, hless⟩ := r
    cases rest with
    | nil => rfl
    | cons t more =>
      have ht : ∀ op, t.kind ≠ .operator op := sum_endsBefore_cons.1 hd.ends
      simp only [after, List.map_cons, run, step_trailing next ht]
      rfl

end Scan

theorem evaluate_eq_error_iff {s : Store} {tokens : List Token} {e : Fault} :
    evaluate s tokens = .error e ↔ Scan.run {} 0 (tokens.map Token.kind) = .error e := by
  rw [Scan.run_eq_ofTokens, evaluate]
  cases ofTokens tokens <;> simp [Except.map]

/-- Evaluation fails with the fault that the pass finds, and succeeds if the pass finds none. -/
theorem evaluate_eq_run (s : Store) (tokens : List Token) :
    (∀ e, evaluate s tokens = .error e ↔
      Scan.run {} 0 (tokens.map Token.kind) = .error e) ∧
    ((∃ v, evaluate s tokens = .ok v) ↔ Scan.run {} 0 (tokens.map Token.kind) = .ok ()) := by
  rw [Scan.run_eq_ofTokens, evaluate]
  cases ofTokens tokens <;> simp [Except.map]

end SlotCalc.Expr
