import Mathlib.Data.List.Forall2
import SlotCalc.Proofs.Expr.Brackets
import SlotCalc.Token

namespace SlotCalc.Expr

def Fault.place (e : Fault) : String × Nat := (e.cause.label, e.index)

/-- Tokens in which some operands are replaced. What an operand was worth over `s`, the one in its
place is worth over `s'`. -/
inductive Replaced (s s' : Store) : List Token → List Token → Prop
  | nil : Replaced s s' [] []
  | other (t : Token) (hn : t.kind ≠ .number) (hs : t.kind ≠ .slot) {more more' : List Token} :
    Replaced s s' more more' → Replaced s s' (t :: more) (t :: more')
  | number (t : Token) (ht : t.kind = .number) (d : Derivation .operand)
    (hd : d.value s' = t.value) {more more' : List Token} :
    Replaced s s' more more' → Replaced s s' (t :: more) (d.tokens ++ more')
  | slot (t : Token) (ht : t.kind = .slot) (d : Derivation .operand)
    (hd : d.value s' = s.get t.name) {more more' : List Token} :
    Replaced s s' more more' → Replaced s s' (t :: more) (d.tokens ++ more')

section
variable {s s' : Store} {tokens tokens' : List Token}

theorem Replaced.exists_append {before after : List Token}
    (h : Replaced s s' (before ++ after) tokens') :
    ∃ before' after', tokens' = before' ++ after' ∧ Replaced s s' before before' ∧
      Replaced s s' after after' := by
  induction before generalizing tokens' with
  | nil => exact ⟨[], tokens', rfl, .nil, h⟩
  | cons t before ih =>
    cases h with
    | other _ hn hs hmore =>
      obtain ⟨before', after', rfl, hbefore, hafter⟩ := ih hmore
      exact ⟨t :: before', after', rfl, .other t hn hs hbefore, hafter⟩
    | number _ ht d hd hmore =>
      obtain ⟨before', after', rfl, hbefore, hafter⟩ := ih hmore
      exact ⟨d.tokens ++ before', after', by simp, .number t ht d hd hbefore, hafter⟩
    | slot _ ht d hd hmore =>
      obtain ⟨before', after', rfl, hbefore, hafter⟩ := ih hmore
      exact ⟨d.tokens ++ before', after', by simp, .slot t ht d hd hbefore, hafter⟩

theorem Replaced.exists_cons {t : Token} (hn : t.kind ≠ .number) (hs : t.kind ≠ .slot)
    (h : Replaced s s' (t :: tokens) tokens') :
    ∃ more, tokens' = t :: more ∧ Replaced s s' tokens more := by
  cases h with
  | other _ _ _ hmore => exact ⟨_, rfl, hmore⟩
  | number _ ht => exact absurd ht hn
  | slot _ ht => exact absurd ht hs

/-- A token that is worth the same over both stores can stay. -/
theorem Replaced.cons {t : Token} (ht : t.kind = .slot → s'.get t.name = s.get t.name)
    (h : Replaced s s' tokens tokens') : Replaced s s' (t :: tokens) (t :: tokens') := by
  by_cases hn : t.kind = .number
  · exact .number t hn (.number t hn) rfl h
  · by_cases hs : t.kind = .slot
    · exact .slot t hs (.slot t hs) (ht hs) h
    · exact .other t hn hs h

theorem Replaced.append_left (h : Replaced s s tokens tokens') (before : List Token) :
    Replaced s s (before ++ tokens) (before ++ tokens') := by
  induction before with
  | nil => exact h
  | cons t more ih => exact ih.cons fun _ => rfl

theorem Replaced.refl (s : Store) (tokens : List Token) : Replaced s s tokens tokens := by
  simpa using Replaced.nil.append_left tokens

/-- A derivation goes over into one of the tokens after the replacement, with the same value. -/
theorem Derivation.exists_replaced (d : Derivation p) (h : Replaced s s' d.tokens tokens') :
    ∃ d' : Derivation p, d'.tokens = tokens' ∧ d'.value s' = d.value s := by
  -- Only a leaf can be replaced. The signs and brackets stay, and they tell where the parts of the
  -- tokens after the replacement end.
  induction d generalizing tokens' with
  | number t ht =>
    cases h with
    | other _ hn => exact absurd ht hn
    | number _ _ o ho hnil =>
      cases hnil
      exact ⟨o, by simp, ho⟩
    | slot _ hs => cases ht.symm.trans hs
  | slot t ht =>
    cases h with
    | other _ _ hs => exact absurd ht hs
    | number _ hn => cases ht.symm.trans hn
    | slot _ _ o ho hnil =>
      cases hnil
      exact ⟨o, by simp, ho⟩
  | bracketed opening ho inner closing hc ih =>
    obtain ⟨more, rfl, hmore⟩ := h.exists_cons (by simp [ho]) (by simp [ho])
    obtain ⟨middle, last, rfl, hmiddle, hlast⟩ := hmore.exists_append
    obtain ⟨_, rfl, hnil⟩ := hlast.exists_cons (by simp [hc]) (by simp [hc])
    cases hnil
    obtain ⟨d, rfl, hd⟩ := ih hmiddle
    exact ⟨.bracketed opening ho d closing hc, rfl, hd⟩
  | productEnd =>
    cases h
    exact ⟨.productEnd, rfl, rfl⟩
  | sumEnd =>
    cases h
    exact ⟨.sumEnd, rfl, rfl⟩
  | productMore sign op hs hop right more ihRight ihMore =>
    obtain ⟨members, rfl, hmembers⟩ := h.exists_cons (by simp [hs]) (by simp [hs])
    obtain ⟨_, _, rfl, hright, hmore⟩ := hmembers.exists_append
    obtain ⟨d, rfl, hd⟩ := ihRight hright
    obtain ⟨m, rfl, hm⟩ := ihMore hmore
    exact ⟨.productMore sign op hs hop d m, rfl, by rw [value, value, hd, hm]⟩
  | sumMore sign op hs hop right more ihRight ihMore =>
    obtain ⟨members, rfl, hmembers⟩ := h.exists_cons (by simp [hs]) (by simp [hs])
    obtain ⟨_, _, rfl, hright, hmore⟩ := hmembers.exists_append
    obtain ⟨d, rfl, hd⟩ := ihRight hright
    obtain ⟨m, rfl, hm⟩ := ihMore hmore
    exact ⟨.sumMore sign op hs hop d m, rfl, by rw [value, value, hd, hm]⟩
  | product first more ihFirst ihMore =>
    obtain ⟨_, _, rfl, hfirst, hmore⟩ := h.exists_append
    obtain ⟨d, rfl, hd⟩ := ihFirst hfirst
    obtain ⟨m, rfl, hm⟩ := ihMore hmore
    exact ⟨.product d m, rfl, by rw [value, value, hd, hm]⟩
  | sum first more ihFirst ihMore =>
    obtain ⟨_, _, rfl, hfirst, hmore⟩ := h.exists_append
    obtain ⟨d, rfl, hd⟩ := ihFirst hfirst
    obtain ⟨m, rfl, hm⟩ := ihMore hmore
    exact ⟨.sum d m, rfl, by rw [value, value, hd, hm]⟩

theorem Replaced.value_eq (h : Replaced s s' tokens tokens') {v v' : Float}
    (hv : evaluate s tokens = .ok v) (hv' : evaluate s' tokens' = .ok v') : v' = v := by
  obtain ⟨d, rfl, -, rfl⟩ := exists_derivation_of_evaluate hv
  obtain ⟨d', rfl, hd'⟩ := d.exists_replaced h
  obtain ⟨d'', htokens, -, rfl⟩ := exists_derivation_of_evaluate hv'
  rw [Derivation.tokens_injective htokens, hd']

theorem Replaced.evaluate_eq (h : Replaced s s' tokens tokens') {g g' : Fault → String × Nat}
    (hscan : (Scan.run {} 0 (tokens'.map Token.kind)).mapError g' =
      (Scan.run {} 0 (tokens.map Token.kind)).mapError g) :
    (evaluate s' tokens').mapError g' = (evaluate s tokens).mapError g := by
  rw [Scan.run_eq_ofTokens, Scan.run_eq_ofTokens] at hscan
  rw [evaluate, evaluate]
  cases hpast : ofTokens tokens with
  | ok expr =>
    cases hnow : ofTokens tokens' with
    | ok expr' =>
      have hv : evaluate s tokens = .ok (expr.eval s) := by rw [evaluate, hpast]; rfl
      have hv' : evaluate s' tokens' = .ok (expr'.eval s') := by rw [evaluate, hnow]; rfl
      exact congrArg Except.ok (h.value_eq hv hv')
    | error e' =>
      rw [hpast, hnow] at hscan
      cases hscan
  | error e =>
    cases hnow : ofTokens tokens' with
    | ok expr' =>
      rw [hpast, hnow] at hscan
      cases hscan
    | error e' =>
      rw [hpast, hnow] at hscan
      exact congrArg Except.error (Except.error.inj hscan)

end

/-- Positions up to `place` as they are, and those after it `count` further on. -/
def movedAfter (place count i : Nat) : Nat := if i ≤ place then i else i + count

theorem movedAfter_of_le {place i : Nat} (h : i ≤ place) (count : Nat) :
    movedAfter place count i = i :=
  if_pos h

theorem movedAfter_of_lt {place i : Nat} (h : place < i) (count : Nat) :
    movedAfter place count i = i + count :=
  if_neg (Nat.not_le.2 h)

theorem Fault.renamed_of_le {place : Nat} {e : Fault} (h : e.index ≤ place) (count : Nat) :
    e.renamed (movedAfter place count) = e := by
  rw [renamed, movedAfter_of_le h]

namespace Scan

section
variable {scan : Scan} {index : Nat}

theorem run_movedAfter (h : scan.Below index) (count : Nat) (kinds : List Token.Kind) :
    scan.run (index + 1 + count) kinds =
      (scan.run (index + 1) kinds).mapError (Fault.renamed (movedAfter index count)) := by
  have hopened : scan.opened.map (movedAfter index count) = scan.opened.map id := by
    apply List.map_congr_left
    intro bracket hb
    exact movedAfter_of_le (Nat.le_of_lt (h bracket hb)) count
  have hmoved : ∀ i, index + 1 ≤ i → movedAfter index count i = i + count :=
    fun i hi => movedAfter_of_lt hi count
  have hrun := run_renamed (f := movedAfter index count)
    (fun i (hi : index + 1 ≤ i) => by rw [hmoved _ hi, hmoved _ (by omega)]; omega) scan kinds
  rwa [renamed, hopened, List.map_id, hmoved _ (Nat.le_refl _)] at hrun

end

section
variable {d : Derivation .sum} {opening closing number : Token}

/-- A number and a formula in brackets, found at the same position. -/
theorem run_bracketed (ho : opening.kind = .opening) (hc : closing.kind = .closing)
    (hn : number.kind = .number) {scan : Scan} {index : Nat} (post : List Token)
    (hbelow : scan.Below index) (hroom : scan.opened.length + 1 + d.nesting ≤ nestingLimit) :
    (scan.run index ((opening :: (d.tokens ++ closing :: post)).map Token.kind)).mapError
        Fault.place =
      (scan.run index ((number :: post).map Token.kind)).mapError
        (Fault.place ∘ Fault.renamed (movedAfter index (d.tokens.length + 1))) := by
  obtain ⟨opened, operandNext⟩ := scan
  dsimp only at hroom
  cases operandNext with
  | true =>
    -- The number and the brackets with what is in them are both one operand.
    have hnumber := run_tokens (.number number hn) opened index (post.map Token.kind)
      (by rw [Derivation.nesting]; omega)
    have hbrackets := run_tokens (.bracketed opening ho d closing hc) opened index
      (post.map Token.kind) (by rw [Derivation.nesting]; omega)
    have hafter : Below ⟨opened, false⟩ index := hbelow
    have hpost := run_movedAfter hafter (d.tokens.length + 1) (post.map Token.kind)
    simp only [Derivation.tokens, Phrase.operandNext, List.cons_append, List.append_assoc,
      List.nil_append, List.length_cons, List.length_append, List.length_nil, Nat.zero_add,
      ← List.map_append] at hnumber hbrackets
    have hplace : index + (d.tokens.length + 1 + 1) = index + 1 + (d.tokens.length + 1) := by omega
    rw [hnumber, hbrackets, hplace, hpost]
    cases run ⟨opened, false⟩ (index + 1) (post.map Token.kind) <;> rfl
  | false =>
    -- There is no place for either.
    cases opened with
    | nil =>
      simp [run, step_trailing, ho, hn, Except.mapError, Fault.place, Fault.renamed,
        movedAfter_of_le, Fault.Cause.label]
    | cons bracket outer =>
      have hbracket : bracket ≤ index := Nat.le_of_lt (hbelow bracket (List.mem_cons_self ..))
      simp [run, step_unclosed, ho, hn, Except.mapError, Fault.place, Fault.renamed,
        movedAfter_of_le hbracket]

theorem run_append_bracketed (ho : opening.kind = .opening) (hc : closing.kind = .closing)
    (hn : number.kind = .number) {scan : Scan} {index : Nat} (pre post : List Token)
    (hbelow : scan.Below index)
    (hroom : openAtEnd scan.opened.length pre + 1 + d.nesting ≤ nestingLimit) :
    (scan.run index ((pre ++ opening :: (d.tokens ++ closing :: post)).map Token.kind)).mapError
        Fault.place =
      (scan.run index ((pre ++ number :: post).map Token.kind)).mapError
        (Fault.place ∘ Fault.renamed (movedAfter (index + pre.length) (d.tokens.length + 1))) := by
  induction pre generalizing scan index with
  | nil => exact run_bracketed ho hc hn post hbelow hroom
  | cons t pre ih =>
    simp only [List.cons_append, List.map_cons, run]
    cases hstep : scan.step index t.kind with
    | error e =>
      have hindex : e.index ≤ index + (t :: pre).length := by
        rcases step_error_index hstep with heq | hmem
        · omega
        · have := hbelow _ hmem
          omega
      exact congrArg (Except.error ∘ Fault.place) (Fault.renamed_of_le hindex _).symm
    | ok next =>
      have hnext := ih (hbelow.step hstep) (by rwa [step_length hstep])
      simpa only [List.length_cons, Nat.add_assoc, Nat.add_comm 1] using hnext

end

end Scan

inductive Resolves (s : Store) : Token → Token → Prop
  | slot {t number : Token} (ht : t.kind = .slot) (hn : number.kind = .number)
    (hv : number.value = s.get t.name) : Resolves s t number
  | other {t : Token} (ht : t.kind ≠ .slot) : Resolves s t t

section
variable {s : Store} {tokens tokens' : List Token}

theorem replaced_of_resolves (s' : Store) (h : List.Forall₂ (Resolves s) tokens tokens') :
    Replaced s s' tokens tokens' := by
  induction h with
  | nil => exact .nil
  | cons hresolves _ ih =>
    cases hresolves with
    | slot ht hn hv => exact .slot _ ht (.number _ hn) hv ih
    | other ht => exact ih.cons fun hs => absurd hs ht

theorem Scan.run_resolved (h : List.Forall₂ (Resolves s) tokens tokens') (scan : Scan)
    (index : Nat) :
    (scan.run index (tokens'.map Token.kind)).mapError Fault.place =
      (scan.run index (tokens.map Token.kind)).mapError Fault.place := by
  induction h generalizing scan index with
  | nil => rfl
  | cons hresolves _ ih =>
    cases hresolves with
    | slot ht hn hv =>
      obtain ⟨opened, operandNext⟩ := scan
      simp only [List.map_cons, ht, hn, run]
      cases operandNext with
      | true => exact ih ⟨opened, false⟩ (index + 1)
      | false => cases opened <;> rfl
    | other ht =>
      simp only [List.map_cons, run]
      cases scan.step index _ with
      | error e => rfl
      | ok next => exact ih next (index + 1)

end

/-- A formula in brackets in the place of its value, before and after any tokens: both are worth
the same, or the same is wrong with both and at the same token, which after the brackets stands so
much further on. The brackets that are open there must not become too many. Numbers in the place of
all slots: the slots play no part any more, and value and fault stay the same. -/
theorem evaluate_substituted :
    (∀ (s : Store) (pre e post : List Token) (v : Float) (number opening closing : Token),
      evaluate s e = .ok v → number.kind = .number → number.value = v →
      opening.kind = .opening → closing.kind = .closing →
      leftOpen pre + 1 + bracketNesting e ≤ 200 →
      (evaluate s (pre ++ opening :: (e ++ closing :: post))).mapError Fault.place =
        (evaluate s (pre ++ number :: post)).mapError
          (Fault.place ∘ Fault.renamed (movedAfter pre.length (e.length + 1)))) ∧
    ∀ (s s' : Store) (tokens tokens' : List Token), List.Forall₂ (Resolves s) tokens tokens' →
      (evaluate s' tokens').mapError Fault.place = (evaluate s tokens).mapError Fault.place := by
  constructor
  · rintro s pre e post v number opening closing he hn rfl ho hc hroom
    obtain ⟨d, rfl, -, hv⟩ := exists_derivation_of_evaluate he
    have hreplaced : Replaced s s (number :: post) (opening :: (d.tokens ++ closing :: post)) := by
      have hblock :=
        Replaced.number number hn (.bracketed opening ho d closing hc) hv (.refl s post)
      simpa [Derivation.tokens] using hblock
    apply (hreplaced.append_left pre).evaluate_eq
    have hbelow : Scan.Below {} 0 := by simp [Scan.Below]
    have hscan := Scan.run_append_bracketed (d := d) ho hc hn pre post hbelow
      (by rwa [← d.bracketNesting_tokens])
    rwa [Nat.zero_add] at hscan
  · intro s s' tokens tokens' hresolves
    exact (replaced_of_resolves s' hresolves).evaluate_eq (Scan.run_resolved hresolves {} 0)

theorem evaluate_substituted_trailing :
    let s : Store := { slots := [("x", 3)], names_nodup := by decide }
    let tokens (line : String) : List Token := (Token.ofLine line).toOption.getD []
    let number (value : Float) : Token := { kind := .number, lexeme := "", value }
    let slot : Token := { kind := .slot, lexeme := "memx", name := "x" }
    let opening : Token := { kind := .opening, lexeme := "(" }
    let closing : Token := { kind := .closing, lexeme := ")" }
    evaluate s (slot :: tokens "- 1") = .ok 2 ∧
    (evaluate s (tokens "8 / (" ++ opening :: ((slot :: tokens "- 1") ++ closing ::
      tokens "* 2 ) )"))).mapError Fault.place = .error ("TrailingTokens", 11) ∧
    (evaluate (.empty none) (number 3 :: tokens "- 1")).mapError Fault.place = .ok 2 := by
  intro s tokens number slot opening closing
  have he : evaluate s (slot :: tokens "- 1") = .ok 2 := by decide +kernel
  have hresolves : List.Forall₂ (Resolves s) (slot :: tokens "- 1") (number 3 :: tokens "- 1") := by
    have hsigns : ∀ t ∈ tokens "- 1", t.kind ≠ .slot := by decide +kernel
    exact .cons (.slot rfl rfl (by decide +kernel))
      (List.forall₂_same.2 fun t ht => .other (hsigns t ht))
  obtain ⟨hbrackets, hslots⟩ := evaluate_substituted
  refine ⟨he, ?_, ?_⟩
  · rw [hbrackets s _ _ _ 2 (number 2) _ _ he rfl rfl rfl rfl (by decide +kernel)]
    decide +kernel
  · rw [hslots s (.empty none) _ _ hresolves, he]
    rfl

end SlotCalc.Expr
