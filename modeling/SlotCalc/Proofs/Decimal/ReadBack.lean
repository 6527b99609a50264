import Mathlib
import SlotCalc.Session
import SlotCalc.Proofs.Decimal.Layout
import SlotCalc.Proofs.Decimal.Nearest
import SlotCalc.Proofs.Decimal.Shortest
import SlotCalc.Proofs.Expr.Evaluation
import SlotCalc.Proofs.Text.Runs

namespace SlotCalc.Decimal

open Float.Model UnpackedFloat Numeral

/-- A text that is one number token, and the double that it is read as. -/
structure ReadsAs (text : List Char) (x : Float) : Prop where
  unbroken : ∀ c ∈ text, Text.isBlank c = false
  symbol : Token.symbolKind? text = none
  slot : Token.slotParts? text = none
  read : (read? text).map toFloat = some x

section
variable {text : List Char} {q : ℚ} {m : ℕ} {e : ℤ} {x : Float}

theorem toFloat_finite (hm : Canonical m e) {c : ℕ} {k : ℤ} (hq : (interval m e).Mem (c * 10 ^ k)) :
    (Numeral.finite false c k).toFloat = ofUnpacked (.finite .positive m e hm.pos) ∧
      (Numeral.finite true c k).toFloat = ofUnpacked (.finite .negative m e hm.pos) := by
  simp only [toFloat, ofScientific_eq_finite hm hq]
  exact ⟨rfl, rfl⟩

theorem read?_of_isDigit {c : Char} {rest : List Char} (hc : c.isDigit = true) :
    read? (c :: rest) = unsigned? false (c :: rest) := by
  rw [read?.eq_def]
  split
  · rename_i h
    cases h
    simp at hc
  · rename_i h
    cases h
    simp at hc
  · rfl

theorem symbolKind?_of_isDigit {c : Char} {rest : List Char} (hc : c.isDigit = true) :
    Token.symbolKind? (c :: rest) = none := by
  cases rest with
  | nil =>
    obtain ⟨d, hd, rfl⟩ := exists_digitChar hc
    have all : ∀ d ∈ List.range 10, Token.symbolKind? [d.digitChar] = none := by decide
    exact all d (List.mem_range.2 hd)
  | cons => simp [Token.symbolKind?]

theorem slotParts?_of_isDigit {c : Char} {rest : List Char} (hc : c.isDigit = true) :
    Token.slotParts? (c :: rest) = none := by
  rw [Token.slotParts?.eq_def]
  split
  · rename_i h
    cases h
    simp at hc
  · rfl

/-- A numeral for a decimal in the interval around a double is read as that double. -/
theorem Denotes.readsAs (h : Denotes text q) (hm : Canonical m e) (hq : (interval m e).Mem q)
    (sign : Sign) : ReadsAs (signText sign ++ text) (ofUnpacked (.finite sign m e hm.pos)) := by
  obtain ⟨c, k, hreads, rfl⟩ := h.reads
  obtain ⟨first, rest, htext, hdigit⟩ := h.head
  obtain ⟨hpositive, hnegative⟩ := toFloat_finite hm hq
  cases sign with
  | positive =>
    refine ⟨h.unbroken, ?_, ?_, ?_⟩
    · rw [signText, List.nil_append, htext]
      exact symbolKind?_of_isDigit hdigit
    · rw [signText, List.nil_append, htext]
      exact slotParts?_of_isDigit hdigit
    · have hread : read? text = some (.finite false c k) := by
        rw [htext, read?_of_isDigit hdigit, ← htext, unsigned?, hreads]
        rfl
      rw [signText, List.nil_append, hread, Option.map_some, hpositive]
  | negative =>
    refine ⟨List.forall_mem_cons.2 ⟨by decide, h.unbroken⟩, ?_, rfl, ?_⟩
    · rw [htext]
      rfl
    · have hread : read? ('-' :: text) = some (.finite true c k) := by
        rw [read?, unsigned?, hreads]
        rfl
      rw [signText, List.singleton_append, hread, Option.map_some, hnegative]

theorem readsAs_of_read? {n : Numeral} (hunbroken : text.all (!Text.isBlank ·) = true)
    (hsymbol : Token.symbolKind? text = none) (hslot : Token.slotParts? text = none)
    (hread : read? text = some n) : ReadsAs text n.toFloat where
  unbroken := Text.unbroken_of_all hunbroken
  symbol := hsymbol
  slot := hslot
  read := by rw [hread, Option.map_some]

theorem shortestText_readsAs (hm : Canonical m e) (sign : Sign) :
    ReadsAs (shortestText sign m e) (ofUnpacked (.finite sign m e hm.pos)) := by
  have hmem := shortest_mem hm
  exact (shortestText_denotes (hmem.coefficient_pos hm)).readsAs hm hmem sign

theorem shownChars_readsAs (x : Float) : ReadsAs (shownChars x.toModel.unpack) x := by
  have hx := ofUnpacked_unpack x
  match hparts : x.toModel.unpack with
  | .notANumber =>
    rw [hparts] at hx
    rw [← hx]
    exact readsAs_of_read? (n := .notANumber) (by decide) rfl rfl (by decide)
  | .infinity sign =>
    rw [hparts] at hx
    rw [← hx]
    cases sign with
    | positive => exact readsAs_of_read? (n := .infinite false) (by decide) rfl rfl (by decide)
    | negative => exact readsAs_of_read? (n := .infinite true) (by decide) rfl rfl (by decide)
  | .zero sign =>
    rw [hparts] at hx
    rw [← hx]
    cases sign with
    | positive => exact readsAs_of_read? (n := .finite false 0 0) (by decide) rfl rfl (by decide)
    | negative => exact readsAs_of_read? (n := .finite true 0 0) (by decide) rfl rfl (by decide)
  | .finite sign m e hpos =>
    have hm : Canonical m e := canonical_of_unpack _ hparts
    rw [hparts] at hx
    rw [← hx, shownChars]
    split
    -- The digits of an integer denote the double itself, the others a decimal that rounds to it.
    · rename_i n hinteger
      have hn := integer?_eq_some_iff.1 hinteger
      exact (denotes_toDigits n).readsAs hm (by rw [hn]; exact mem_interval hm) sign
    · exact shortestText_readsAs hm sign

theorem plainChars_readsAs (x : Float) : ReadsAs (plainChars x.toModel.unpack) x := by
  have hx := ofUnpacked_unpack x
  match hparts : x.toModel.unpack with
  | .notANumber =>
    rw [hparts] at hx
    rw [← hx]
    exact readsAs_of_read? (n := .notANumber) (by decide) rfl rfl (by decide)
  | .infinity sign =>
    have htext := shownChars_readsAs x
    rwa [hparts] at htext
  | .zero sign =>
    rw [hparts] at hx
    rw [← hx]
    cases sign with
    | positive => exact readsAs_of_read? (n := .finite false 0 (-1)) (by decide) rfl rfl (by decide)
    | negative => exact readsAs_of_read? (n := .finite true 0 (-1)) (by decide) rfl rfl (by decide)
  | .finite sign m e hpos =>
    rw [hparts] at hx
    rw [← hx]
    exact shortestText_readsAs (canonical_of_unpack _ hparts) sign

theorem plain_unbroken (x : Float) : ∀ c ∈ (plain x).toList, Text.isBlank c = false := by
  rw [plain, String.toList_ofList]
  exact (plainChars_readsAs x).unbroken

end

section
variable {text : List Char} {x : Float}

theorem ReadsAs.pieces (h : ReadsAs text x) : Text.pieces text = [⟨0, text⟩] := by
  apply Text.piecesFrom_unbroken _ h.unbroken
  rintro rfl
  have hread := h.read
  simp [read?, unsigned?, decimal?, word?, digitRun, digitsFrom, fraction] at hread

theorem ReadsAs.ofPiece? (h : ReadsAs text x) :
    Token.ofPiece? text = some { kind := .number, lexeme := String.ofList text, value := x } := by
  obtain ⟨n, hread, rfl⟩ := Option.map_eq_some_iff.1 h.read
  simp only [Token.ofPiece?, h.symbol, h.slot, hread, Option.map_some]

end

def shownToken (x : Float) : Token := { kind := .number, lexeme := shown x, value := x }

section
variable (x : Float)

theorem pieces_shown : Text.pieces (shown x).toList = [⟨0, (shown x).toList⟩] := by
  rw [shown, String.toList_ofList]
  exact (shownChars_readsAs x).pieces

theorem ofPiece_shown (line : String) :
    Token.ofPiece line ⟨0, (shown x).toList⟩ = .ok (shownToken x) := by
  have h := (shownChars_readsAs x).ofPiece?
  rw [Token.ofPiece, shown, String.toList_ofList, h]
  rfl

theorem ofLine_shown : Token.ofLine (shown x) = .ok [shownToken x] := by
  rw [Token.ofLine, pieces_shown]
  simp [ofPiece_shown]

theorem evaluate_shownToken (s : Store) : Expr.evaluate s [shownToken x] = .ok x :=
  Expr.evaluate_number s rfl

theorem command?_shown : Session.command? (shown x) = none := by
  rw [Session.command?, Token.take, pieces_shown]
  simp [Token.takePieces, ofPiece_shown, shownToken, Token.Kind.isCommand]

theorem step_shown (config : Config) (state : Session.State) :
    Session.step config state (shown x) =
      { result := .ok (.evaluated (shown x) x)
        state := { state with previous := x }
        events := [.evaluated (shown x) x] } := by
  simp only [Session.step, command?_shown, Session.evaluateLine, ofLine_shown,
    evaluate_shownToken]

end

/-- The number that a finite double is. -/
def exactValue? (x : Float) : Option ℚ :=
  match x.toModel.unpack with
  | .zero _ => some 0
  | .finite .positive mantissa exponent _ => some (mantissa * 2 ^ exponent)
  | .finite .negative mantissa exponent _ => some (-(mantissa * 2 ^ exponent))
  | .infinity _ | .notANumber => none

theorem ofList_signed_toDigits {k : ℕ} (hk : 0 < k) :
    String.ofList (signText .positive ++ Nat.toDigits 10 k) = toString (k : ℤ) ∧
      String.ofList (signText .negative ++ Nat.toDigits 10 k) = toString (-k : ℤ) := by
  obtain ⟨j, rfl⟩ := Nat.exists_eq_succ_of_ne_zero hk.ne'
  have hrepr : String.ofList (Nat.toDigits 10 (j + 1)) = toString (j + 1) :=
    Nat.toString_eq_ofList_toDigits.symm
  constructor
  · exact hrepr
  · rw [String.ofList_append, hrepr]
    rfl

/-- An integer is shown with all its digits, and minus zero as `-0`. -/
theorem shown_of_integer {x : Float} {n : ℤ} (h : exactValue? x = some (n : ℚ)) :
    shown x = if n = 0 ∧ Operator.isNegative x then "-0" else toString n := by
  match hparts : x.toModel.unpack with
  | .notANumber => simp [exactValue?, hparts] at h
  | .infinity sign => simp [exactValue?, hparts] at h
  | .zero sign =>
    simp only [exactValue?, hparts, Option.some_inj] at h
    obtain rfl : n = 0 := by exact_mod_cast h.symm
    simp only [shown, Operator.isNegative, hparts]
    cases sign <;> rfl
  | .finite sign m e hpos =>
    have hvalue : 0 < (m : ℚ) * 2 ^ e := by positivity
    have hshown {k : ℕ} (hk : (k : ℚ) = m * 2 ^ e) :
        shown x = String.ofList (signText sign ++ Nat.toDigits 10 k) := by
      rw [shown, hparts, shownChars, integer?_eq_some_iff.2 hk]
    cases sign with
    | positive =>
      simp only [exactValue?, hparts, Option.some_inj] at h
      rw [h] at hvalue
      have hn : 0 < n := by exact_mod_cast hvalue
      obtain ⟨k, rfl⟩ := Int.eq_ofNat_of_zero_le hn.le
      rw [hshown (by exact_mod_cast h.symm), if_neg (fun hzero => hn.ne' hzero.1)]
      exact (ofList_signed_toDigits (by omega)).1
    | negative =>
      simp only [exactValue?, hparts, Option.some_inj] at h
      have hneg : (m : ℚ) * 2 ^ e = -n := by rw [← h, neg_neg]
      rw [hneg] at hvalue
      have hn : n < 0 := by
        have h' : (n : ℚ) < 0 := by linarith
        exact_mod_cast h'
      obtain ⟨k, rfl⟩ := Int.exists_eq_neg_ofNat hn.le
      rw [hshown (by rw [hneg]; push_cast; ring), if_neg (fun hzero => hn.ne hzero.1)]
      exact (ofList_signed_toDigits (by omega)).2

/-- The text of a double is one number token with that double as its value, so that a line of it
has that result, which becomes the previous one. An integer is shown with all its digits. -/
theorem shown_reads_back (x : Float) :
    Token.ofLine (shown x) = .ok [{ kind := .number, lexeme := shown x, value := x }] ∧
    (∀ (config : Config) (state : Session.State),
      Session.step config state (shown x) =
        { result := .ok (.evaluated (shown x) x)
          state := { state with previous := x }
          events := [.evaluated (shown x) x] }) ∧
    (∀ n : ℤ, exactValue? x = some (n : ℚ) →
      shown x = if n = 0 ∧ Operator.isNegative x then "-0" else toString n) := by
  refine ⟨ofLine_shown x, step_shown x, fun n h => ?_⟩
  exact shown_of_integer h

theorem shown_neg_two_pow_seventy :
    exactValue? (.ofBits 0xc450000000000000) = some ((-1180591620717411303424 : ℤ) : ℚ) ∧
      shown (.ofBits 0xc450000000000000) = "-1180591620717411303424" := by
  have hparts : (Float.ofBits 0xc450000000000000).toModel.unpack =
      .finite .negative (2 ^ 52) 18 (by decide) := rfl
  have hvalue : exactValue? (.ofBits 0xc450000000000000) =
      some ((-1180591620717411303424 : ℤ) : ℚ) := by
    simp only [exactValue?, hparts]
    norm_num
  refine ⟨hvalue, ?_⟩
  rw [(shown_reads_back _).2.2 _ hvalue]
  rfl

end SlotCalc.Decimal
