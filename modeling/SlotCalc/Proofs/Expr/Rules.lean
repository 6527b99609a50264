import Mathlib.Data.List.Basic
import SlotCalc.Proofs.Expr.Brackets
import SlotCalc.Token

namespace SlotCalc.Expr

section
variable {p : Phrase} {rest before : List Token}

theorem Phrase.endsBefore_shorter (h : p.endsBefore rest) (hbegin : before <+: rest) :
    p.endsBefore before := by
  obtain ⟨after, rfl⟩ := hbegin
  have hhead : ∀ t ∈ before.head?, t ∈ (before ++ after).head? := by
    intro t ht
    rw [List.head?_append, ht]
    rfl
  cases p with
  | operand => trivial
  | productTail | product | sumTail | sum => exact fun t ht => h t (hhead t ht)

/-- Where a derivation can end, no derivation of the same phrase goes further. -/
theorem Derivation.length_le_of_endsBefore (d d' : Derivation p) (h : p.endsBefore rest)
    (hbegin : d'.tokens <+: d.tokens ++ rest) : d'.tokens.length ≤ d.tokens.length := by
  apply Nat.le_of_not_lt
  intro hlonger
  obtain ⟨more, hmore⟩ : d.tokens <+: d'.tokens :=
    List.prefix_of_prefix_length_le (List.prefix_append ..) hbegin (Nat.le_of_lt hlonger)
  have hrest : more <+: rest := by
    rwa [← hmore, List.prefix_append_right_inj] at hbegin
  have hends : p.endsBefore [] := Phrase.endsBefore_shorter h (List.nil_prefix ..)
  obtain ⟨rfl, rfl⟩ := Derivation.eq_of_append_eq d d' (Phrase.endsBefore_shorter h hrest) hends
    (by rw [hmore, List.append_nil])
  exact Nat.lt_irrefl _ hlonger

end

theorem Derivation.Spans.shallower {d : Derivation p} {depth depth' index next : Nat}
    {tokens rest : List Token} (h : d.Spans depth index tokens next rest) (hle : depth' ≤ depth) :
    d.Spans depth' index tokens next rest := by
  have hfits := h.fits
  exact ⟨h.tokens_eq, h.next_eq, by omega, h.ends⟩

theorem Derivation.Spans.startingAt {d : Derivation p} {depth index next : Nat}
    {tokens rest : List Token} (h : d.Spans depth index tokens next rest) (start : Nat) :
    d.Spans depth start tokens (start + d.tokens.length) rest :=
  ⟨h.tokens_eq, rfl, h.fits, h.ends⟩

namespace Rule

def phrase : Rule → Phrase
  | .sum => .sum
  | .product => .product
  | .operand => .operand

def formula : (rule : Rule) → Derivation rule.phrase → Expr
  | .sum, d | .product, d | .operand, d => d.formula

def value (s : Store) : (rule : Rule) → Derivation rule.phrase → Float
  | .sum, d | .product, d | .operand, d => d.value s

def valueAt (rule : Rule) (s : Store) (depth start : Nat) (tokens : List Token) :
    Except Fault (Float × Nat) :=
  (rule.readAt depth start tokens).map fun r => (r.expr.eval s, r.next)

/-- A value or a fault with all positions `count` higher. -/
def movedBy (count : Nat) (result : Except Fault (Float × Nat)) : Except Fault (Float × Nat) :=
  (result.map (Prod.map id (count + ·))).mapError (Fault.renamed (count + ·))

section
variable {rule : Rule} {s : Store} {depth index start next : Nat} {tokens rest : List Token}

theorem value_eq (rule : Rule) (s : Store) (d : Derivation rule.phrase) :
    rule.value s d = (rule.formula d).eval s := by
  cases rule <;> exact d.value_eq s

theorem read_spans {r : Reading tokens.length} (h : rule.read depth index tokens = .ok r) :
    ∃ d : Derivation rule.phrase, d.Spans depth index tokens r.next r.rest ∧
      rule.formula d = r.expr := by
  cases rule with
  | sum => exact sum_spans h
  | product => exact product_spans h
  | operand => exact operand_spans h

theorem read_of_spans (d : Derivation rule.phrase) (h : d.Spans depth index tokens next rest) :
    ∃ hless, rule.read depth index tokens = .ok ⟨rule.formula d, next, rest, hless⟩ := by
  cases rule with
  | sum => exact sum_of_spans d h
  | product => exact product_of_spans d h
  | operand => exact operand_of_spans d h

theorem run_eq_after_read (rule : Rule) (opened : List Nat) (index : Nat) (tokens : List Token) :
    Scan.run ⟨opened, true⟩ index (tokens.map Token.kind) =
      Scan.after opened (rule.read opened.length index tokens) := by
  cases rule with
  | sum => exact Scan.run_eq_after_sum opened index tokens
  | product => exact Scan.run_eq_after_product opened index tokens
  | operand => exact Scan.run_eq_after_operand opened index tokens

theorem valueAt_eq_ok_iff {v : Float} : rule.valueAt s depth start tokens = .ok (v, next) ↔
    ∃ (d : Derivation rule.phrase) (rest : List Token),
      d.Spans depth start (tokens.drop start) next rest ∧ rule.value s d = v := by
  constructor
  · intro h
    rw [valueAt, readAt] at h
    cases hread : rule.read depth start (tokens.drop start) with
    | error e =>
      rw [hread] at h
      cases h
    | ok r =>
      rw [hread] at h
      cases h
      obtain ⟨d, hd, hformula⟩ := read_spans hread
      exact ⟨d, r.rest, hd, by rw [value_eq, hformula]⟩
  · rintro ⟨d, rest, hd, rfl⟩
    obtain ⟨hless, hread⟩ := read_of_spans d hd
    rw [valueAt, readAt, hread, value_eq]
    rfl

theorem valueAt_eq_error_iff {e : Fault} : rule.valueAt s depth start tokens = .error e ↔
    rule.read depth start (tokens.drop start) = .error e := by
  rw [valueAt, readAt]
  cases rule.read depth start (tokens.drop start) <;> simp [Except.map]

theorem lt_of_spans {d : Derivation rule.phrase}
    (h : d.Spans depth start (tokens.drop start) next rest) :
    start < next ∧ next ≤ tokens.length := by
  obtain ⟨hless, -⟩ := read_of_spans d h
  have htokens := congrArg List.length h.tokens_eq
  have hnext := h.next_eq
  rw [List.length_drop] at hless
  rw [List.length_drop, List.length_append] at htokens
  omega

theorem extract_of_spans {d : Derivation rule.phrase}
    (h : d.Spans depth start (tokens.drop start) next rest) :
    tokens.extract start next = d.tokens := by
  rw [List.extract_eq_take_drop, h.tokens_eq, h.next_eq, Nat.add_sub_cancel_left, List.take_left]

/-- A fault is found wherever the tokens begin. -/
theorem read_error_moved {e : Fault} (h : rule.read depth index tokens = .error e) (count : Nat) :
    rule.read depth (count + index) tokens = .error (e.renamed (count + ·)) := by
  -- The pass finds the fault in both places, with any positions for the brackets before.
  have hhere := run_eq_after_read rule (List.replicate depth 0) index tokens
  have hthere := run_eq_after_read rule (List.replicate depth count) (count + index) tokens
  rw [List.length_replicate] at hhere hthere
  have hmoved := Scan.run_renamed (f := (count + ·)) (fun i (_ : index ≤ i) => rfl)
    ⟨List.replicate depth 0, true⟩ (tokens.map Token.kind)
  rw [Scan.renamed, List.map_replicate, Nat.add_zero, hhere, h, hthere] at hmoved
  cases hread : rule.read depth (count + index) tokens with
  | error e' =>
    rw [hread] at hmoved
    rw [Except.error.inj hmoved]
  | ok r =>
    -- What is read there is read here too.
    obtain ⟨d, hd, -⟩ := read_spans hread
    obtain ⟨hless, hread'⟩ := read_of_spans d (hd.startingAt index)
    rw [h] at hread'
    cases hread'

theorem valueAt_append (front : List Token) :
    rule.valueAt s depth (front.length + start) (front ++ tokens) =
      movedBy front.length (rule.valueAt s depth start tokens) := by
  have hdrop : (front ++ tokens).drop (front.length + start) = tokens.drop start :=
    List.drop_length_add_append ..
  cases h : rule.valueAt s depth start tokens with
  | ok result =>
    obtain ⟨v, next⟩ := result
    obtain ⟨d, rest, hd, hv⟩ := valueAt_eq_ok_iff.1 h
    have hthere := hd.startingAt (front.length + start)
    rw [Nat.add_assoc, ← hd.next_eq, ← hdrop] at hthere
    exact valueAt_eq_ok_iff.2 ⟨d, rest, hthere, hv⟩
  | error e =>
    have hread := read_error_moved (valueAt_eq_error_iff.1 h) front.length
    rw [← hdrop] at hread
    exact valueAt_eq_error_iff.2 hread

end

/-- A rule reads the longest run of tokens that it derives from where it starts, and what it reads
has the value of the derivation, whose brackets are not nested too deep. What stands before has no
part in it, so that more tokens in front do nothing but move the positions, those of faults too.
Fewer brackets around it change nothing. -/
theorem valueAt_reads_longest (rule : Rule) (s : Store) (depth start : Nat)
    (tokens : List Token) :
    (∀ v next, rule.valueAt s depth start tokens = .ok (v, next) →
      start < next ∧ next ≤ tokens.length ∧
      (∃ d : Derivation rule.phrase, d.tokens = tokens.extract start next ∧
        rule.value s d = v ∧ (d.nesting = 0 ∨ depth + d.nesting ≤ 200)) ∧
      ∀ other ≤ tokens.length,
        (∃ d : Derivation rule.phrase, d.tokens = tokens.extract start other) → other ≤ next) ∧
    (∀ front : List Token, rule.valueAt s depth (front.length + start) (front ++ tokens) =
      movedBy front.length (rule.valueAt s depth start tokens)) ∧
    ∀ shallower ≤ depth, ∀ v next, rule.valueAt s depth start tokens = .ok (v, next) →
      rule.valueAt s shallower start tokens = .ok (v, next) := by
  refine ⟨?_, valueAt_append, ?_⟩
  · intro v next h
    obtain ⟨d, rest, hd, hv⟩ := valueAt_eq_ok_iff.1 h
    obtain ⟨hlt, hle⟩ := lt_of_spans hd
    refine ⟨hlt, hle, ⟨d, (extract_of_spans hd).symm, hv, hd.fits⟩, ?_⟩
    rintro other hother ⟨d', hd'⟩
    have hbegin : d'.tokens <+: d.tokens ++ rest := by
      rw [hd', ← hd.tokens_eq, List.extract_eq_take_drop]
      exact List.take_prefix ..
    have hlength := d.length_le_of_endsBefore d' hd.ends hbegin
    have hnext := hd.next_eq
    rw [hd', List.extract_eq_take_drop, List.length_take, List.length_drop] at hlength
    omega
  · intro shallower hle v next h
    obtain ⟨d, rest, hd, hv⟩ := valueAt_eq_ok_iff.1 h
    exact valueAt_eq_ok_iff.2 ⟨d, rest, hd.shallower hle, hv⟩

theorem valueAt_reads_longest_at_limit :
    let tokens (line : String) : List Token := (Token.ofLine line).toOption.getD []
    let here := tokens ") ( 1 - 2 ) * 3 + 4"
    product.valueAt (.empty none) 199 1 here = .ok (-3, 8) ∧
    (∃ d : Derivation .product, d.tokens = here.extract 1 8 ∧ d.value (.empty none) = -3) ∧
    (∀ other ≤ here.length, (∃ d : Derivation .product, d.tokens = here.extract 1 other) →
      other ≤ 8) ∧
    product.valueAt (.empty none) 199 3 (tokens "5 /" ++ here) = .ok (-3, 10) ∧
    product.valueAt (.empty none) 0 1 here = .ok (-3, 8) ∧
    product.valueAt (.empty none) 200 1 here = .error ⟨.tooDeep, 1⟩ := by
  intro tokens here
  have hvalue : product.valueAt (.empty none) 199 1 here = .ok (-3, 8) := by decide +kernel
  obtain ⟨hread, hfront, hdepth⟩ := valueAt_reads_longest .product (.empty none) 199 1 here
  obtain ⟨-, -, ⟨d, hd, hv, -⟩, hlongest⟩ := hread _ _ hvalue
  refine ⟨hvalue, ⟨d, hd, hv⟩, hlongest, ?_, hdepth 0 (by decide) _ _ hvalue, by decide +kernel⟩
  have hlength : (tokens "5 /").length = 2 := by decide +kernel
  have hmoved := hfront (tokens "5 /")
  rwa [hvalue, hlength] at hmoved

end Rule

end SlotCalc.Expr
