import SlotCalc.Expr

namespace SlotCalc.Expr

/-- What a derivation can derive: the three rules, and what follows the first member of a chain. -/
inductive Phrase
  | operand
  | productTail
  | product
  | sumTail
  | sum

/-- How tokens come from the rules of a formula. The tokens of a derivation determine it. -/
inductive Derivation : Phrase → Type
  | number (t : Token) (ht : t.kind = .number) : Derivation .operand
  | slot (t : Token) (ht : t.kind = .slot) : Derivation .operand
  | bracketed (opening : Token) (ho : opening.kind = .opening) (inner : Derivation .sum)
      (closing : Token) (hc : closing.kind = .closing) : Derivation .operand
  | productEnd : Derivation .productTail
  | productMore (sign : Token) (op : Operator) (hs : sign.kind = .operator op)
      (hop : op.isAdditive = false) (right : Derivation .operand)
      (more : Derivation .productTail) : Derivation .productTail
  | product (first : Derivation .operand) (more : Derivation .productTail) : Derivation .product
  | sumEnd : Derivation .sumTail
  | sumMore (sign : Token) (op : Operator) (hs : sign.kind = .operator op)
      (hop : op.isAdditive = true) (right : Derivation .product)
      (more : Derivation .sumTail) : Derivation .sumTail
  | sum (first : Derivation .product) (more : Derivation .sumTail) : Derivation .sum

/-- Combines the members of a chain strictly from left to right. -/
def chain (combine : Operator → α → α → α) (first : α) (more : List (Operator × α)) : α :=
  more.foldl (fun left term => combine term.1 left term.2) first

/-- What a phrase stands for: the tail of a chain is a list of operators and right operands. -/
@[reducible] def Phrase.Meaning (α : Type) : Phrase → Type
  | productTail | sumTail => List (Operator × α)
  | operand | product | sum => α

namespace Derivation

def tokens : Derivation p → List Token
  | number t _ | slot t _ => [t]
  | bracketed opening _ inner closing _ => opening :: inner.tokens ++ [closing]
  | productEnd | sumEnd => []
  | productMore sign _ _ _ right more => sign :: right.tokens ++ more.tokens
  | sumMore sign _ _ _ right more => sign :: right.tokens ++ more.tokens
  | product first more => first.tokens ++ more.tokens
  | sum first more => first.tokens ++ more.tokens

def nesting : Derivation p → Nat
  | number .. | slot .. | productEnd | sumEnd => 0
  | bracketed _ _ inner _ _ => inner.nesting + 1
  | productMore _ _ _ _ right more => max right.nesting more.nesting
  | sumMore _ _ _ _ right more => max right.nesting more.nesting
  | product first more => max first.nesting more.nesting
  | sum first more => max first.nesting more.nesting

def value (s : Store) : {p : Phrase} → Derivation p → p.Meaning Float
  | _, number t _ => t.value
  | _, slot t _ => s.get t.name
  | _, bracketed _ _ inner _ _ => inner.value s
  | _, productEnd | _, sumEnd => []
  | _, productMore _ op _ _ right more => (op, right.value s) :: more.value s
  | _, sumMore _ op _ _ right more => (op, right.value s) :: more.value s
  | _, product first more => chain Operator.apply (first.value s) (more.value s)
  | _, sum first more => chain Operator.apply (first.value s) (more.value s)

def formula : {p : Phrase} → Derivation p → p.Meaning Expr
  | _, number t _ => .number t.value
  | _, slot t _ => .slot t.name
  | _, bracketed _ _ inner _ _ => inner.formula
  | _, productEnd | _, sumEnd => []
  | _, productMore _ op _ _ right more => (op, right.formula) :: more.formula
  | _, sumMore _ op _ _ right more => (op, right.formula) :: more.formula
  | _, product first more => chain .binary first.formula more.formula
  | _, sum first more => chain .binary first.formula more.formula

end Derivation

theorem eval_chain (s : Store) (first : Expr) (more : List (Operator × Expr)) :
    (chain .binary first more).eval s =
      chain Operator.apply (first.eval s) (more.map (Prod.map id (eval s))) := by
  induction more generalizing first with
  | nil => rfl
  | cons term more ih => exact ih (.binary term.1 first term.2)

def Phrase.evaluated (s : Store) : (p : Phrase) → p.Meaning Expr → p.Meaning Float
  | productTail | sumTail => List.map (Prod.map id (eval s))
  | operand | product | sum => eval s

theorem Derivation.value_eq {p : Phrase} (s : Store) (d : Derivation p) :
    d.value s = p.evaluated s d.formula := by
  induction d with
  | number t ht | slot t ht | productEnd | sumEnd => rfl
  | bracketed opening ho inner closing hc ih => exact ih
  | productMore sign op hs hop right more ihRight ihMore
  | sumMore sign op hs hop right more ihRight ihMore =>
    rw [value, ihRight, ihMore]
    rfl
  | product first more ihFirst ihMore | sum first more ihFirst ihMore =>
    rw [value, ihFirst, ihMore]
    exact (eval_chain s first.formula more.formula).symm

theorem Derivation.value_congr {s s' : Store} {p : Phrase} (d : Derivation p)
    (h : ∀ t ∈ d.tokens, t.kind = .slot → s.get t.name = s'.get t.name) :
    d.value s = d.value s' := by
  induction d with
  | number t ht | productEnd | sumEnd => rfl
  | slot t ht => exact h t (List.mem_singleton_self t) ht
  | bracketed opening ho inner closing hc ih =>
    apply ih
    intro t ht
    exact h t (List.mem_cons_of_mem _ (List.mem_append_left _ ht))
  | productMore sign op hs hop right more ihRight ihMore
  | sumMore sign op hs hop right more ihRight ihMore =>
    obtain ⟨-, hmembers⟩ := List.forall_mem_cons.1 h
    obtain ⟨hright, hmore⟩ := List.forall_mem_append.1 hmembers
    rw [value, value, ihRight hright, ihMore hmore]
  | product first more ihFirst ihMore | sum first more ihFirst ihMore =>
    obtain ⟨hfirst, hmore⟩ := List.forall_mem_append.1 h
    rw [value, value, ihFirst hfirst, ihMore hmore]

/-- Whether a phrase can end before `rest`: no operator follows that would go on with it. -/
def Phrase.endsBefore (p : Phrase) (rest : List Token) : Prop :=
  match p with
  | operand => True
  | productTail | product =>
    ∀ t ∈ rest.head?, ∀ op, t.kind = .operator op → op.isAdditive = true
  | sumTail | sum => ∀ t ∈ rest.head?, ∀ op, t.kind ≠ .operator op

namespace Derivation

theorem product_endsBefore_append (more : Derivation .sumTail) {rest : List Token}
    (h : Phrase.sum.endsBefore rest) : Phrase.product.endsBefore (more.tokens ++ rest) := by
  intro t ht op hop
  cases more with
  | sumEnd => exact absurd hop (h t ht op)
  | sumMore sign op' hs hadd right more =>
    obtain rfl : sign = t := by simpa [tokens] using ht
    rw [hs, Token.Kind.operator.injEq] at hop
    exact hop ▸ hadd

theorem sum_endsBefore_closing {t : Token} (ht : t.kind = .closing) (rest : List Token) :
    Phrase.sum.endsBefore (t :: rest) := by
  intro t' ht' op
  obtain rfl : t = t' := by simpa using ht'
  rw [ht]
  exact Token.Kind.noConfusion

/-- The tokens of a derivation determine it, wherever in a text they stand. -/
theorem eq_of_append_eq {p : Phrase} (d d' : Derivation p) {rest rest' : List Token}
    (h : p.endsBefore rest) (h' : p.endsBefore rest')
    (e : d.tokens ++ rest = d'.tokens ++ rest') : d = d' ∧ rest = rest' := by
  -- By induction on the one derivation: its first token tells the shape of the other, and where a
  -- chain ends in the one and goes on in the other, `rest` would begin with an operator.
  induction d generalizing rest rest' with
  | number t ht =>
    cases d' with
    | number t' ht' =>
      obtain ⟨rfl, er⟩ := List.cons.inj e
      exact ⟨rfl, er⟩
    | slot t' ht' =>
      obtain ⟨rfl, er⟩ := List.cons.inj e
      cases ht.symm.trans ht'
    | bracketed opening ho inner closing hc =>
      obtain ⟨rfl, er⟩ := List.cons.inj e
      cases ht.symm.trans ho
  | slot t ht =>
    cases d' with
    | number t' ht' =>
      obtain ⟨rfl, er⟩ := List.cons.inj e
      cases ht.symm.trans ht'
    | slot t' ht' =>
      obtain ⟨rfl, er⟩ := List.cons.inj e
      exact ⟨rfl, er⟩
    | bracketed opening ho inner closing hc =>
      obtain ⟨rfl, er⟩ := List.cons.inj e
      cases ht.symm.trans ho
  | bracketed opening ho inner closing hc ih =>
    cases d' with
    | number t ht | slot t ht =>
      obtain ⟨rfl, er⟩ := List.cons.inj e
      cases ht.symm.trans ho
    | bracketed opening' ho' inner' closing' hc' =>
      simp only [tokens, List.cons_append, List.append_assoc, List.nil_append,
        List.cons.injEq] at e
      obtain ⟨rfl, ei⟩ := e
      obtain ⟨rfl, ec⟩ :=
        ih inner' (sum_endsBefore_closing hc _) (sum_endsBefore_closing hc' _) ei
      obtain ⟨rfl, er⟩ := List.cons.inj ec
      exact ⟨rfl, er⟩
  | productEnd =>
    cases d' with
    | productEnd => exact ⟨rfl, e⟩
    | productMore sign op hs hop right more =>
      have hrest : sign ∈ rest.head? := (congrArg List.head? e : rest.head? = some sign)
      cases hop.symm.trans (h sign hrest op hs)
  | productMore sign op hs hop right more ihRight ihMore =>
    cases d' with
    | productEnd =>
      have hrest : sign ∈ rest'.head? := (congrArg List.head? e.symm : rest'.head? = some sign)
      cases hop.symm.trans (h' sign hrest op hs)
    | productMore sign' op' hs' hop' right' more' =>
      simp only [tokens, List.cons_append, List.append_assoc, List.cons.injEq] at e
      obtain ⟨rfl, et⟩ := e
      obtain rfl : op = op' := Token.Kind.operator.inj (hs.symm.trans hs')
      obtain ⟨rfl, em⟩ := ihRight right' trivial trivial et
      obtain ⟨rfl, er⟩ := ihMore more' h h' em
      exact ⟨rfl, er⟩
  | product first more ihFirst ihMore =>
    cases d' with
    | product first' more' =>
      simp only [tokens, List.append_assoc] at e
      obtain ⟨rfl, em⟩ := ihFirst first' trivial trivial e
      obtain ⟨rfl, er⟩ := ihMore more' h h' em
      exact ⟨rfl, er⟩
  | sumEnd =>
    cases d' with
    | sumEnd => exact ⟨rfl, e⟩
    | sumMore sign op hs hop right more =>
      have hrest : sign ∈ rest.head? := (congrArg List.head? e : rest.head? = some sign)
      exact absurd hs (h sign hrest op)
  | sumMore sign op hs hop right more ihRight ihMore =>
    cases d' with
    | sumEnd =>
      have hrest : sign ∈ rest'.head? := (congrArg List.head? e.symm : rest'.head? = some sign)
      exact absurd hs (h' sign hrest op)
    | sumMore sign' op' hs' hop' right' more' =>
      simp only [tokens, List.cons_append, List.append_assoc, List.cons.injEq] at e
      obtain ⟨rfl, et⟩ := e
      obtain rfl : op = op' := Token.Kind.operator.inj (hs.symm.trans hs')
      obtain ⟨rfl, em⟩ := ihRight right' (product_endsBefore_append more h)
        (product_endsBefore_append more' h') et
      obtain ⟨rfl, er⟩ := ihMore more' h h' em
      exact ⟨rfl, er⟩
  | sum first more ihFirst ihMore =>
    cases d' with
    | sum first' more' =>
      simp only [tokens, List.append_assoc] at e
      obtain ⟨rfl, em⟩ := ihFirst first' (product_endsBefore_append more h)
        (product_endsBefore_append more' h') e
      obtain ⟨rfl, er⟩ := ihMore more' h h' em
      exact ⟨rfl, er⟩

theorem tokens_injective : Function.Injective (tokens : Derivation .sum → List Token) := by
  intro d d' e
  have hend : Phrase.sum.endsBefore [] := by
    intro t ht
    cases ht
  exact (eq_of_append_eq d d' hend hend (congrArg (· ++ []) e)).1

end Derivation

end SlotCalc.Expr
