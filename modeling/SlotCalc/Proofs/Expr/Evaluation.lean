import SlotCalc.Proofs.Expr.Derivation

namespace SlotCalc.Expr

/-- A derivation, inside `depth` brackets, of the tokens from position `index` to `next`. -/
structure Derivation.Spans (d : Derivation p) (depth index : Nat) (tokens : List Token)
    (next : Nat) (rest : List Token) : Prop where
  tokens_eq : tokens = d.tokens ++ rest
  next_eq : next = index + d.tokens.length
  fits : d.nesting = 0 ∨ depth + d.nesting ≤ nestingLimit
  ends : p.endsBefore rest

namespace Derivation

variable {depth index next : Nat} {tokens rest : List Token}

theorem spans_bracketed {opening closing : Token} (ho : opening.kind = .opening)
    (hc : closing.kind = .closing) (inner : Derivation .sum) :
    (bracketed opening ho inner closing hc).Spans depth index (opening :: tokens) (next + 1) rest ↔
      depth < nestingLimit ∧
        inner.Spans (depth + 1) (index + 1) tokens next (closing :: rest) := by
  constructor
  · rintro ⟨htokens, hnext, hfits, -⟩
    simp only [Derivation.tokens, Derivation.nesting, List.cons_append, List.append_assoc,
      List.nil_append, List.cons.injEq, true_and, List.length_cons, List.length_append,
      List.length_nil] at htokens hnext hfits
    exact ⟨by omega, htokens, by omega, by omega, sum_endsBefore_closing hc rest⟩
  · rintro ⟨hdepth, rfl, rfl, hfits, -⟩
    refine ⟨by simp [Derivation.tokens], ?_, ?_, trivial⟩
    · simp only [Derivation.tokens, List.length_cons, List.length_append, List.length_nil]
      omega
    · simp only [Derivation.nesting]
      omega

/-- A member of a chain, after its sign if it has one, and the tail of the chain. -/
theorem spans_append {a : Derivation p} {b : Derivation q} {c : Derivation p'} (sign : List Token)
    (htokens : c.tokens = sign ++ (a.tokens ++ b.tokens))
    (hnesting : c.nesting = max a.nesting b.nesting)
    (hends : p'.endsBefore rest ↔ q.endsBefore rest)
    (hmember : q.endsBefore rest → p.endsBefore (b.tokens ++ rest)) :
    c.Spans depth index (sign ++ tokens) next rest ↔
      ∃ place middle, a.Spans depth (index + sign.length) tokens place middle ∧
        b.Spans depth place middle next rest := by
  constructor
  · rintro ⟨ht, rfl, hfits, he⟩
    rw [htokens, List.append_assoc, List.append_cancel_left_eq, List.append_assoc] at ht
    rw [hnesting] at hfits
    refine ⟨_, _, ⟨ht, rfl, by omega, hmember (hends.1 he)⟩, ⟨rfl, ?_, by omega, hends.1 he⟩⟩
    simp only [htokens, List.length_append]
    omega
  · rintro ⟨_, _, ⟨rfl, rfl, ha, -⟩, ⟨rfl, rfl, hb, he⟩⟩
    refine ⟨by simp [htokens], ?_, by rw [hnesting]; omega, hends.2 he⟩
    simp only [htokens, List.length_append]
    omega

theorem spans_product {first : Derivation .operand} {more : Derivation .productTail} :
    (product first more).Spans depth index tokens next rest ↔
      ∃ place middle, first.Spans depth index tokens place middle ∧
        more.Spans depth place middle next rest :=
  spans_append [] rfl rfl Iff.rfl fun _ => trivial

theorem spans_productMore {sign : Token} {op : Operator} (hs : sign.kind = .operator op)
    (hop : op.isAdditive = false) {right : Derivation .operand} {more : Derivation .productTail} :
    (productMore sign op hs hop right more).Spans depth index (sign :: tokens) next rest ↔
      ∃ place middle, right.Spans depth (index + 1) tokens place middle ∧
        more.Spans depth place middle next rest :=
  spans_append [sign] rfl rfl Iff.rfl fun _ => trivial

theorem spans_sum {first : Derivation .product} {more : Derivation .sumTail} :
    (sum first more).Spans depth index tokens next rest ↔
      ∃ place middle, first.Spans depth index tokens place middle ∧
        more.Spans depth place middle next rest :=
  spans_append [] rfl rfl Iff.rfl (product_endsBefore_append more)

theorem spans_sumMore {sign : Token} {op : Operator} (hs : sign.kind = .operator op)
    (hop : op.isAdditive = true) {right : Derivation .product} {more : Derivation .sumTail} :
    (sumMore sign op hs hop right more).Spans depth index (sign :: tokens) next rest ↔
      ∃ place middle, right.Spans depth (index + 1) tokens place middle ∧
        more.Spans depth place middle next rest :=
  spans_append [sign] rfl rfl Iff.rfl (product_endsBefore_append more)

end Derivation

theorem additive?_eq_some {k : Token.Kind} {op : Operator} :
    additive? k = some op ↔ k = .operator op ∧ op.isAdditive = true := by
  cases k <;> grind [additive?]

theorem multiplicative?_eq_some {k : Token.Kind} {op : Operator} :
    multiplicative? k = some op ↔ k = .operator op ∧ op.isAdditive = false := by
  cases k <;> grind [multiplicative?]

theorem sum_endsBefore_cons {t : Token} {rest : List Token} :
    Phrase.sum.endsBefore (t :: rest) ↔ ∀ op, t.kind ≠ .operator op := by
  simp [Phrase.endsBefore]

theorem product_endsBefore_cons {t : Token} {rest : List Token} :
    Phrase.product.endsBefore (t :: rest) ↔ multiplicative? t.kind = none := by
  simp only [Phrase.endsBefore, List.head?_cons, Option.mem_some_iff, forall_eq',
    Option.eq_none_iff_forall_ne_some, ne_eq, multiplicative?_eq_some]
  grind

theorem sum_endsBefore_of_additive? {t : Token} {rest : List Token}
    (hmul : Phrase.product.endsBefore (t :: rest)) (hadd : additive? t.kind = none) :
    Phrase.sum.endsBefore (t :: rest) := by
  rw [sum_endsBefore_cons]
  rintro op hop
  cases hk : op.isAdditive with
  | true => exact absurd (additive?_eq_some.2 ⟨hop, hk⟩) (by simp [hadd])
  | false =>
    rw [product_endsBefore_cons] at hmul
    exact absurd (multiplicative?_eq_some.2 ⟨hop, hk⟩) (by simp [hmul])

mutual

theorem operand_spans {depth index : Nat} {tokens : List Token} {r : Reading tokens.length}
    (h : operand depth index tokens = .ok r) :
    ∃ d : Derivation .operand, d.Spans depth index tokens r.next r.rest ∧ d.formula = r.expr := by
  match tokens with
  | [] =>
    rw [operand] at h
    cases h
  | t :: rest =>
    rw [operand] at h
    cases hk : t.kind with
    | number =>
      simp only [hk, Except.ok.injEq] at h
      subst h
      exact ⟨.number t hk, ⟨rfl, rfl, .inl rfl, trivial⟩, rfl⟩
    | slot =>
      simp only [hk, Except.ok.injEq] at h
      subst h
      exact ⟨.slot t hk, ⟨rfl, rfl, .inl rfl, trivial⟩, rfl⟩
    | opening =>
      simp only [hk] at h
      split at h
      · cases h
      · rename_i hdepth
        split at h
        · cases h
        · cases h
        · rename_i inner place close more hless hs
          split at h
          · rename_i hc
            obtain ⟨d, hd, rfl⟩ := sum_spans hs
            cases h
            exact ⟨.bracketed t hk d close hc,
              (Derivation.spans_bracketed hk hc d).2 ⟨by omega, hd⟩, rfl⟩
          · cases h
    | _ => simp [hk] at h
termination_by 3 * tokens.length

theorem product_spans {depth index : Nat} {tokens : List Token} {r : Reading tokens.length}
    (h : product depth index tokens = .ok r) :
    ∃ d : Derivation .product, d.Spans depth index tokens r.next r.rest ∧ d.formula = r.expr := by
  rw [product] at h
  split at h
  · cases h
  · rename_i first place middle hless hfirst
    split at h
    · cases h
    · rename_i expr next rest hless' htail
      obtain ⟨d, hd, rfl⟩ := operand_spans hfirst
      obtain ⟨m, hm, rfl⟩ := productTail_spans htail
      cases h
      exact ⟨.product d m, Derivation.spans_product.2 ⟨place, middle, hd, hm⟩, rfl⟩
termination_by 3 * tokens.length + 1

theorem productTail_spans {depth index : Nat} {left : Expr} {tokens : List Token}
    {r : Reading (tokens.length + 1)} (h : productTail depth left index tokens = .ok r) :
    ∃ d : Derivation .productTail, d.Spans depth index tokens r.next r.rest ∧
      chain .binary left d.formula = r.expr := by
  match tokens with
  | [] =>
    rw [productTail] at h
    cases h
    exact ⟨.productEnd, ⟨rfl, rfl, .inl rfl, by simp [Phrase.endsBefore]⟩, rfl⟩
  | t :: rest =>
    rw [productTail] at h
    split at h
    · rename_i hk
      cases h
      exact ⟨.productEnd, ⟨rfl, rfl, .inl rfl, product_endsBefore_cons.2 hk⟩, rfl⟩
    · rename_i op hop
      obtain ⟨hs, hk⟩ := multiplicative?_eq_some.1 hop
      split at h
      · cases h
      · rename_i right place middle hless hright
        split at h
        · cases h
        · rename_i expr next remaining hless' htail
          obtain ⟨d, hd, rfl⟩ := operand_spans hright
          obtain ⟨m, hm, rfl⟩ := productTail_spans htail
          cases h
          exact ⟨.productMore t op hs hk d m,
            (Derivation.spans_productMore hs hk).2 ⟨place, middle, hd, hm⟩, rfl⟩
termination_by 3 * tokens.length

theorem sum_spans {depth index : Nat} {tokens : List Token} {r : Reading tokens.length}
    (h : sum depth index tokens = .ok r) :
    ∃ d : Derivation .sum, d.Spans depth index tokens r.next r.rest ∧ d.formula = r.expr := by
  rw [sum] at h
  split at h
  · cases h
  · rename_i first place middle hless hfirst
    split at h
    · cases h
    · rename_i expr next rest hless' htail
      obtain ⟨d, hd, rfl⟩ := product_spans hfirst
      obtain ⟨m, hm, rfl⟩ := sumTail_spans hd.ends htail
      cases h
      exact ⟨.sum d m, Derivation.spans_sum.2 ⟨place, middle, hd, hm⟩, rfl⟩
termination_by 3 * tokens.length + 2

theorem sumTail_spans {depth index : Nat} {left : Expr} {tokens : List Token}
    {r : Reading (tokens.length + 1)} (hstart : Phrase.product.endsBefore tokens)
    (h : sumTail depth left index tokens = .ok r) :
    ∃ d : Derivation .sumTail, d.Spans depth index tokens r.next r.rest ∧
      chain .binary left d.formula = r.expr := by
  match tokens with
  | [] =>
    rw [sumTail] at h
    cases h
    exact ⟨.sumEnd, ⟨rfl, rfl, .inl rfl, by simp [Phrase.endsBefore]⟩, rfl⟩
  | t :: rest =>
    rw [sumTail] at h
    split at h
    -- The product before has taken all operators of its own, so none of them can follow.
    · rename_i hk
      cases h
      exact ⟨.sumEnd, ⟨rfl, rfl, .inl rfl, sum_endsBefore_of_additive? hstart hk⟩, rfl⟩
    · rename_i op hop
      obtain ⟨hs, hk⟩ := additive?_eq_some.1 hop
      split at h
      · cases h
      · rename_i right place middle hless hright
        split at h
        · cases h
        · rename_i expr next remaining hless' htail
          obtain ⟨d, hd, rfl⟩ := product_spans hright
          obtain ⟨m, hm, rfl⟩ := sumTail_spans hd.ends htail
          cases h
          exact ⟨.sumMore t op hs hk d m,
            (Derivation.spans_sumMore hs hk).2 ⟨place, middle, hd, hm⟩, rfl⟩
termination_by 3 * tokens.length + 1

end

mutual

theorem operand_of_spans (d : Derivation .operand) {depth index next : Nat}
    {tokens rest : List Token} (h : d.Spans depth index tokens next rest) :
    ∃ hless, operand depth index tokens = .ok ⟨d.formula, next, rest, hless⟩ := by
  match d with
  | .number t ht | .slot t ht =>
    obtain ⟨rfl, rfl, -, -⟩ := h
    refine ⟨by simp [Derivation.tokens], ?_⟩
    simp [Derivation.tokens, operand, ht, Derivation.formula]
  | .bracketed opening ho inner closing hc =>
    obtain ⟨place, rfl⟩ : ∃ place, next = place + 1 := by
      have hnext := h.next_eq
      simp only [Derivation.tokens, List.length_append, List.length_cons] at hnext
      exact ⟨next - 1, by omega⟩
    obtain ⟨tokens, rfl⟩ : ∃ more, tokens = opening :: more := ⟨_, h.tokens_eq⟩
    obtain ⟨hdepth, hinner⟩ := (Derivation.spans_bracketed ho hc inner).1 h
    obtain ⟨hless, hsum⟩ := sum_of_spans inner hinner
    refine ⟨by simp only [List.length_cons] at hless ⊢; omega, ?_⟩
    rw [operand]
    simp [ho, Nat.not_le.2 hdepth, hsum, hc, Derivation.formula]
termination_by sizeOf d

theorem product_of_spans (d : Derivation .product) {depth index next : Nat}
    {tokens rest : List Token} (h : d.Spans depth index tokens next rest) :
    ∃ hless, product depth index tokens = .ok ⟨d.formula, next, rest, hless⟩ := by
  match d with
  | .product first more =>
    obtain ⟨place, middle, hfirst, hmore⟩ := Derivation.spans_product.1 h
    obtain ⟨hless, hread⟩ := operand_of_spans first hfirst
    obtain ⟨hless', htail⟩ := productTail_of_spans more first.formula hmore
    refine ⟨by omega, ?_⟩
    rw [product]
    simp [hread, htail, Derivation.formula]
termination_by sizeOf d

theorem productTail_of_spans (d : Derivation .productTail) (left : Expr) {depth index next : Nat}
    {tokens rest : List Token} (h : d.Spans depth index tokens next rest) :
    ∃ hless, productTail depth left index tokens =
      .ok ⟨chain .binary left d.formula, next, rest, hless⟩ := by
  match d with
  | .productEnd =>
    obtain ⟨rfl, rfl, -, hends⟩ := h
    refine ⟨Nat.lt_succ_self _, ?_⟩
    cases tokens with
    | nil => simp [productTail, Derivation.formula, chain]
    | cons t rest =>
      have ht : multiplicative? t.kind = none := product_endsBefore_cons.1 hends
      simp [productTail, ht, Derivation.formula, chain]
  | .productMore sign op hs hop right more =>
    obtain ⟨tokens, rfl⟩ : ∃ others, tokens = sign :: others := ⟨_, h.tokens_eq⟩
    obtain ⟨place, middle, hright, hmore⟩ := (Derivation.spans_productMore hs hop).1 h
    obtain ⟨hless, hread⟩ := operand_of_spans right hright
    obtain ⟨hless', htail⟩ := productTail_of_spans more (.binary op left right.formula) hmore
    refine ⟨by simp only [List.length_cons]; omega, ?_⟩
    rw [productTail]
    simp [multiplicative?_eq_some.2 ⟨hs, hop⟩, hread, htail, Derivation.formula, chain]
termination_by sizeOf d

theorem sum_of_spans (d : Derivation .sum) {depth index next : Nat}
    {tokens rest : List Token} (h : d.Spans depth index tokens next rest) :
    ∃ hless, sum depth index tokens = .ok ⟨d.formula, next, rest, hless⟩ := by
  match d with
  | .sum first more =>
    obtain ⟨place, middle, hfirst, hmore⟩ := Derivation.spans_sum.1 h
    obtain ⟨hless, hread⟩ := product_of_spans first hfirst
    obtain ⟨hless', htail⟩ := sumTail_of_spans more first.formula hmore
    refine ⟨by omega, ?_⟩
    rw [sum]
    simp [hread, htail, Derivation.formula]
termination_by sizeOf d

theorem sumTail_of_spans (d : Derivation .sumTail) (left : Expr) {depth index next : Nat}
    {tokens rest : List Token} (h : d.Spans depth index tokens next rest) :
    ∃ hless, sumTail depth left index tokens =
      .ok ⟨chain .binary left d.formula, next, rest, hless⟩ := by
  match d with
  | .sumEnd =>
    obtain ⟨rfl, rfl, -, hends⟩ := h
    refine ⟨Nat.lt_succ_self _, ?_⟩
    cases tokens with
    | nil => simp [sumTail, Derivation.formula, chain]
    | cons t rest =>
      have ht : additive? t.kind = none := by
        rw [Option.eq_none_iff_forall_ne_some]
        exact fun op hop => sum_endsBefore_cons.1 hends op (additive?_eq_some.1 hop).1
      simp [sumTail, ht, Derivation.formula, chain]
  | .sumMore sign op hs hop right more =>
    obtain ⟨tokens, rfl⟩ : ∃ others, tokens = sign :: others := ⟨_, h.tokens_eq⟩
    obtain ⟨place, middle, hright, hmore⟩ := (Derivation.spans_sumMore hs hop).1 h
    obtain ⟨hless, hread⟩ := product_of_spans right hright
    obtain ⟨hless', htail⟩ := sumTail_of_spans more (.binary op left right.formula) hmore
    refine ⟨by simp only [List.length_cons]; omega, ?_⟩
    rw [sumTail]
    simp [additive?_eq_some.2 ⟨hs, hop⟩, hread, htail, Derivation.formula, chain]
termination_by sizeOf d

end

theorem ofTokens_eq_ok_iff {tokens : List Token} {e : Expr} :
    ofTokens tokens = .ok e ↔
      ∃ d : Derivation .sum, d.tokens = tokens ∧ d.nesting ≤ nestingLimit ∧ d.formula = e := by
  constructor
  · intro h
    rw [ofTokens] at h
    split at h
    · cases h
    · rename_i expr next hless hsum
      cases h
      obtain ⟨d, hd, rfl⟩ := sum_spans hsum
      have hfits := hd.fits
      exact ⟨d, by simpa using hd.tokens_eq.symm, by omega, rfl⟩
    · cases h
  · rintro ⟨d, rfl, hnesting, rfl⟩
    have hd : d.Spans 0 0 d.tokens (0 + d.tokens.length) [] :=
      ⟨by simp, rfl, by omega, by simp [Phrase.endsBefore]⟩
    obtain ⟨hless, hsum⟩ := sum_of_spans d hd
    rw [ofTokens, hsum]

theorem evaluate_tokens (s : Store) (d : Derivation .sum) (h : d.nesting ≤ nestingLimit) :
    evaluate s d.tokens = .ok (d.value s) := by
  rw [evaluate, ofTokens_eq_ok_iff.2 ⟨d, rfl, h, rfl⟩, d.value_eq s]
  rfl

theorem exists_derivation_of_evaluate {s : Store} {tokens : List Token} {v : Float}
    (h : evaluate s tokens = .ok v) :
    ∃ d : Derivation .sum, d.tokens = tokens ∧ d.nesting ≤ nestingLimit ∧ d.value s = v := by
  rw [evaluate] at h
  cases he : ofTokens tokens with
  | error e =>
    rw [he] at h
    cases h
  | ok e =>
    rw [he] at h
    cases h
    obtain ⟨d, htokens, hnesting, rfl⟩ := ofTokens_eq_ok_iff.1 he
    exact ⟨d, htokens, hnesting, d.value_eq s⟩

theorem evaluate_number (s : Store) {t : Token} (ht : t.kind = .number) :
    evaluate s [t] = .ok t.value :=
  evaluate_tokens s (.sum (.product (.number t ht) .productEnd) .sumEnd) (Nat.zero_le _)

theorem evaluate_slot (s : Store) {t : Token} (ht : t.kind = .slot) :
    evaluate s [t] = .ok (s.get t.name) :=
  evaluate_tokens s (.sum (.product (.slot t ht) .productEnd) .sumEnd) (Nat.zero_le _)

/-- Stores that agree on the slots among the tokens give them the same value or fault. -/
theorem evaluate_congr {s s' : Store} {tokens : List Token}
    (h : ∀ t ∈ tokens, t.kind = .slot → s.get t.name = s'.get t.name) :
    evaluate s tokens = evaluate s' tokens := by
  rw [evaluate, evaluate]
  cases he : ofTokens tokens with
  | error fault => rfl
  | ok e =>
    obtain ⟨d, rfl, -, rfl⟩ := ofTokens_eq_ok_iff.1 he
    have hvalue := d.value_congr h
    rw [d.value_eq s, d.value_eq s'] at hvalue
    exact congrArg Except.ok hvalue

/-- Tokens have a value exactly if they have a derivation in which brackets are nested at most 200
deep, and it is the value of that derivation, of which there is no other. -/
theorem evaluate_eq_ok_iff_derivation :
    (∀ (s : Store) (tokens : List Token) (v : Float),
      evaluate s tokens = .ok v ↔
        ∃ d : Derivation .sum, d.tokens = tokens ∧ d.nesting ≤ 200 ∧ d.value s = v) ∧
    Function.Injective (Derivation.tokens : Derivation .sum → List Token) := by
  refine ⟨fun s tokens v => ?_, Derivation.tokens_injective⟩
  constructor
  · intro h
    rw [evaluate] at h
    cases he : ofTokens tokens with
    | error fault =>
      rw [he] at h
      cases h
    | ok e =>
      rw [he] at h
      cases h
      obtain ⟨d, ht, hn, rfl⟩ := ofTokens_eq_ok_iff.1 he
      exact ⟨d, ht, hn, d.value_eq s⟩
  · rintro ⟨d, ht, hn, rfl⟩
    rw [evaluate, ofTokens_eq_ok_iff.2 ⟨d, ht, hn, rfl⟩, d.value_eq s]
    rfl

end SlotCalc.Expr
