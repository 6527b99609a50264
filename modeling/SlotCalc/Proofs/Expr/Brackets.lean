import SlotCalc.Proofs.Expr.Scan

namespace SlotCalc.Expr

/-- How many brackets are open after a token. A closing bracket with none to close has no effect. -/
def openAfter (depth : Nat) : Token.Kind → Nat
  | .opening => depth + 1
  | .closing => depth - 1
  | _ => depth

def openAtEnd (depth : Nat) (tokens : List Token) : Nat :=
  tokens.foldl (fun open' t => openAfter open' t.kind) depth

def deepest (depth : Nat) : List Token → Nat
  | [] => depth
  | t :: more => max depth (deepest (openAfter depth t.kind) more)

/-- How many of the brackets that the tokens open they do not close. -/
def leftOpen (tokens : List Token) : Nat := openAtEnd 0 tokens

/-- How deep the brackets among the tokens are nested. -/
def bracketNesting (tokens : List Token) : Nat := deepest 0 tokens

theorem le_deepest (depth : Nat) (tokens : List Token) : depth ≤ deepest depth tokens := by
  cases tokens with
  | nil => exact Nat.le_refl _
  | cons t more => exact Nat.le_max_left _ _

theorem deepest_operand {t : Token} (ho : t.kind ≠ .opening) (hc : t.kind ≠ .closing) (depth : Nat)
    (more : List Token) : deepest depth (t :: more) = deepest depth more := by
  have hopen : openAfter depth t.kind = depth := by
    cases hk : t.kind <;> simp_all [openAfter]
  rw [deepest, hopen]
  exact Nat.max_eq_right (le_deepest depth more)

/-- A derivation goes as deep as it is nested and ends as deep as it began. -/
theorem Derivation.deepest_append (d : Derivation p) (depth : Nat) (rest : List Token) :
    deepest depth (d.tokens ++ rest) = max (depth + d.nesting) (deepest depth rest) := by
  have hrest := le_deepest depth rest
  -- After its closing bracket an operand is as deep as before it, so what follows begins at
  -- `depth`.
  induction d generalizing depth rest with
  | number t ht | slot t ht =>
    have hleaf := deepest_operand (t := t) (by simp [ht]) (by simp [ht]) depth rest
    simp only [tokens, nesting, List.singleton_append, hleaf]
    omega
  | bracketed opening ho inner closing hc ih =>
    simp only [tokens, nesting, List.cons_append, List.append_assoc, List.nil_append, deepest, ho,
      openAfter]
    rw [ih _ _ (le_deepest _ _)]
    simp only [deepest, hc, openAfter, Nat.add_sub_cancel]
    omega
  | productEnd | sumEnd =>
    simp only [tokens, nesting, List.nil_append]
    omega
  | productMore sign op hs hop right more ihRight ihMore
  | sumMore sign op hs hop right more ihRight ihMore =>
    have hsign := deepest_operand (t := sign) (by simp [hs]) (by simp [hs]) depth
    simp only [tokens, nesting, List.cons_append, List.append_assoc, hsign]
    rw [ihRight _ _ (le_deepest _ _), ihMore _ _ hrest]
    omega
  | product first more ihFirst ihMore | sum first more ihFirst ihMore =>
    simp only [tokens, nesting, List.append_assoc]
    rw [ihFirst _ _ (le_deepest _ _), ihMore _ _ hrest]
    omega

theorem Derivation.bracketNesting_tokens (d : Derivation p) :
    bracketNesting d.tokens = d.nesting := by
  have hdeepest := d.deepest_append 0 []
  rw [List.append_nil] at hdeepest
  simpa [bracketNesting, deepest] using hdeepest

def Fault.renamed (f : Nat → Nat) (e : Fault) : Fault := { e with index := f e.index }

namespace Scan

def renamed (f : Nat → Nat) (scan : Scan) : Scan := { scan with opened := scan.opened.map f }

theorem step_renamed (f : Nat → Nat) (scan : Scan) (index : Nat) (kind : Token.Kind) :
    (scan.renamed f).step (f index) kind =
      ((scan.step index kind).map (renamed f)).mapError (Fault.renamed f) := by
  obtain ⟨opened, operandNext⟩ := scan
  cases operandNext with
  | true =>
    cases kind with
    | opening =>
      simp only [step, renamed, if_true, List.length_map]
      split <;> rfl
    | _ => rfl
  | false => cases kind <;> cases opened <;> rfl

theorem run_renamed {f : Nat → Nat} {index : Nat} (hf : ∀ i, index ≤ i → f (i + 1) = f i + 1)
    (scan : Scan) (kinds : List Token.Kind) :
    (scan.renamed f).run (f index) kinds = (scan.run index kinds).mapError (Fault.renamed f) := by
  induction kinds generalizing scan index with
  | nil =>
    obtain ⟨opened, operandNext⟩ := scan
    cases operandNext <;> cases opened <;> rfl
  | cons kind more ih =>
    rw [run, run, step_renamed]
    cases scan.step index kind with
    | error e => rfl
    | ok next =>
      have hnext := ih (fun i (hi : index + 1 ≤ i) => hf i (by omega)) next
      rwa [hf index (Nat.le_refl _)] at hnext

/-- The brackets that are open all stand before `index`. -/
def Below (scan : Scan) (index : Nat) : Prop := ∀ bracket ∈ scan.opened, bracket < index

section
variable {scan next : Scan} {index : Nat} {kind : Token.Kind} {e : Fault}

theorem step_opened (h : scan.step index kind = .ok next) :
    next.opened =
      match kind with
      | .opening => index :: scan.opened
      | .closing => scan.opened.tail
      | _ => scan.opened := by
  obtain ⟨opened, operandNext⟩ := scan
  cases operandNext with
  | true =>
    cases kind with
    | number | slot =>
      cases h
      rfl
    | opening =>
      simp only [step, if_true] at h
      split at h <;> cases h
      rfl
    | _ => cases h
  | false => cases kind <;> cases opened <;> cases h <;> rfl

theorem Below.step (h : scan.Below index) (hstep : scan.step index kind = .ok next) :
    next.Below (index + 1) := by
  have hopened := step_opened hstep
  intro bracket hb
  rw [hopened] at hb
  have hmem : bracket = index ∨ bracket ∈ scan.opened := by
    cases kind with
    | opening => exact List.mem_cons.1 hb
    | closing => exact .inr (List.mem_of_mem_tail hb)
    | _ => exact .inr hb
  rcases hmem with rfl | hmem
  · exact Nat.lt_succ_self _
  · exact Nat.lt_succ_of_lt (h bracket hmem)

theorem step_error_index (h : scan.step index kind = .error e) :
    e.index = index ∨ e.index ∈ scan.opened := by
  obtain ⟨opened, operandNext⟩ := scan
  cases operandNext with
  | true =>
    cases kind with
    | opening =>
      simp only [step, if_true] at h
      split at h <;> cases h
      exact .inl rfl
    | _ => cases h <;> exact .inl rfl
  | false =>
    cases opened with
    | nil => cases kind <;> cases h <;> exact .inl rfl
    | cons bracket outer => cases kind <;> cases h <;> exact .inr (List.mem_cons_self ..)

theorem step_length (h : scan.step index kind = .ok next) :
    next.opened.length = openAfter scan.opened.length kind := by
  rw [step_opened h]
  cases kind <;> simp [openAfter]

end

end Scan

/-- Whether an operand has to come where the phrase begins. -/
def Phrase.operandNext : Phrase → Bool
  | operand | product | sum => true
  | productTail | sumTail => false

/-- The pass takes the tokens of a derivation in and is left with what was open before. -/
theorem Scan.run_tokens (d : Derivation p) (opened : List Nat) (index : Nat)
    (kinds : List Token.Kind) (h : opened.length + d.nesting ≤ nestingLimit) :
    run ⟨opened, p.operandNext⟩ index (d.tokens.map Token.kind ++ kinds) =
      run ⟨opened, false⟩ (index + d.tokens.length) kinds := by
  induction d generalizing opened index kinds with
  | number t ht | slot t ht => simp [Derivation.tokens, Phrase.operandNext, run, step, ht]
  | bracketed opening ho inner closing hc ih =>
    rw [Derivation.nesting] at h
    have hroom : ¬ 200 ≤ opened.length := by
      rw [nestingLimit] at h
      omega
    -- The inner sum finds one bracket more open, which the closing one takes away again.
    have hinner := ih (index :: opened) (index + 1) (.closing :: kinds)
      (by rw [List.length_cons]; omega)
    simp only [Phrase.operandNext] at hinner ⊢
    simp only [Derivation.tokens, List.cons_append, List.map_cons, List.map_append, List.map_nil,
      List.append_assoc, List.nil_append, run, step, ho, hc, if_true, if_neg hroom, hinner,
      Bool.false_eq_true, if_false, List.length_cons, List.length_append, List.length_nil]
    congr 1
    omega
  | productEnd | sumEnd => rfl
  | productMore sign op hs hop right more ihRight ihMore
  | sumMore sign op hs hop right more ihRight ihMore =>
    rw [Derivation.nesting] at h
    have hright := ihRight opened (index + 1) (more.tokens.map Token.kind ++ kinds) (by omega)
    have hmore := ihMore opened (index + 1 + right.tokens.length) kinds (by omega)
    simp only [Phrase.operandNext] at hright hmore ⊢
    simp only [Derivation.tokens, List.cons_append, List.map_cons, List.map_append,
      List.append_assoc, run, hs, step_operator, hright, hmore, List.length_cons,
      List.length_append]
    congr 1
    omega
  | product first more ihFirst ihMore | sum first more ihFirst ihMore =>
    rw [Derivation.nesting] at h
    have hfirst := ihFirst opened index (more.tokens.map Token.kind ++ kinds) (by omega)
    have hmore := ihMore opened (index + first.tokens.length) kinds (by omega)
    simp only [Phrase.operandNext] at hfirst hmore ⊢
    simp only [Derivation.tokens, List.map_append, List.append_assoc, hfirst, hmore,
      List.length_append, Nat.add_assoc]

end SlotCalc.Expr
