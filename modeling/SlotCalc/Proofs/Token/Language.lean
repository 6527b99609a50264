import Mathlib.Data.List.Forall2
import SlotCalc.Proofs.Text.Runs
import SlotCalc.Token

namespace SlotCalc.Token

def symbols : List (List Char) := [['+'], ['-'], ['*'], ['/'], ['('], [')']]

/-- Some rule applies to the piece: it is a symbol, begins with `mem` or is a numeral. -/
def Readable (piece : List Char) : Prop :=
  piece ∈ symbols ∨ ['m', 'e', 'm'] <+: piece ∨ (Numeral.read? piece).isSome

/-- The token that a piece stands for by the first rule that applies. -/
inductive Spells (piece : List Char) : Token → Prop
  | operator (op : Operator) (h : piece = [op.symbol]) :
    Spells piece { kind := .operator op, lexeme := String.ofList piece }
  | opening (h : piece = ['(']) : Spells piece { kind := .opening, lexeme := String.ofList piece }
  | closing (h : piece = [')']) : Spells piece { kind := .closing, lexeme := String.ofList piece }
  | slotPlus (name : List Char) (h : piece = ['m', 'e', 'm'] ++ name ++ ['+']) :
    Spells piece { kind := .slotPlus, lexeme := String.ofList piece, name := String.ofList name }
  | slotMinus (name : List Char) (h : piece = ['m', 'e', 'm'] ++ name ++ ['-']) :
    Spells piece { kind := .slotMinus, lexeme := String.ofList piece, name := String.ofList name }
  | slot (name : List Char) (h : piece = ['m', 'e', 'm'] ++ name)
    (hsign : ∀ c ∈ name.getLast?, c ≠ '+' ∧ c ≠ '-') :
    Spells piece { kind := .slot, lexeme := String.ofList piece, name := String.ofList name }
  | number (n : Numeral) (hsymbol : piece ∉ symbols) (hmem : ¬ ['m', 'e', 'm'] <+: piece)
    (h : Numeral.read? piece = some n) :
    Spells piece { kind := .number, lexeme := String.ofList piece, value := n.toFloat }

section
variable {piece : List Char} {t : Token}

theorem isSome_symbolKind?_iff : (symbolKind? piece).isSome ↔ piece ∈ symbols := by
  unfold symbolKind? symbols
  split <;> simp_all

theorem isSome_slotParts?_iff : (slotParts? piece).isSome ↔ ['m', 'e', 'm'] <+: piece := by
  unfold slotParts?
  split
  · simp
  · rename_i h
    simp only [Option.isSome_none, Bool.false_eq_true, false_iff]
    rintro ⟨name, rfl⟩
    exact h name rfl

theorem symbolKind?_of_not_mem (h : piece ∉ symbols) : symbolKind? piece = none := by
  rwa [← isSome_symbolKind?_iff, Option.not_isSome_iff_eq_none] at h

theorem slotParts?_of_not_prefix (h : ¬ ['m', 'e', 'm'] <+: piece) : slotParts? piece = none := by
  rwa [← isSome_slotParts?_iff, Option.not_isSome_iff_eq_none] at h

theorem slotParts_of_unsigned {name : List Char} (h : ∀ c ∈ name.getLast?, c ≠ '+' ∧ c ≠ '-') :
    slotParts name = (.slot, name) := by
  have hplus : ¬ name.getLast? = some '+' := fun hlast => (h _ hlast).1 rfl
  have hminus : ¬ name.getLast? = some '-' := fun hlast => (h _ hlast).2 rfl
  rw [slotParts, if_neg hplus, if_neg hminus]

theorem ofPiece?_eq_some_of_spells (h : Spells piece t) : ofPiece? piece = some t := by
  cases h with
  | operator op h =>
    subst h
    cases op <;> rfl
  | opening h | closing h =>
    subst h
    rfl
  | slotPlus name h | slotMinus name h =>
    subst h
    simp [ofPiece?, symbolKind?, slotParts?, slotParts]
  | slot name h hsign =>
    subst h
    simp [ofPiece?, symbolKind?, slotParts?, slotParts_of_unsigned hsign]
  | number n hsymbol hmem h =>
    simp [ofPiece?, symbolKind?_of_not_mem hsymbol, slotParts?_of_not_prefix hmem, h]

theorem spells_of_symbolKind?_eq_some {kind : Kind} (h : symbolKind? piece = some kind) :
    Spells piece { kind, lexeme := String.ofList piece } := by
  unfold symbolKind? at h
  split at h <;> cases h
  · exact .operator .plus rfl
  · exact .operator .minus rfl
  · exact .operator .times rfl
  · exact .operator .dividedBy rfl
  · exact .opening rfl
  · exact .closing rfl

theorem spells_of_slotParts?_eq_some {kind : Kind} {name : List Char}
    (h : slotParts? piece = some (kind, name)) :
    Spells piece { kind, lexeme := String.ofList piece, name := String.ofList name } := by
  unfold slotParts? at h
  split at h
  · rename_i rest
    have hsigned (c : Char) (hlast : rest.getLast? = some c) : rest = rest.dropLast ++ [c] :=
      (List.dropLast_append_getLast? c hlast).symm
    unfold slotParts at h
    split at h
    · rename_i hplus
      cases h
      exact .slotPlus _ (congrArg (['m', 'e', 'm'] ++ ·) (hsigned '+' hplus))
    · split at h
      · rename_i hminus
        cases h
        exact .slotMinus _ (congrArg (['m', 'e', 'm'] ++ ·) (hsigned '-' hminus))
      · rename_i hplus hminus
        cases h
        apply Spells.slot _ rfl
        intro c hc
        constructor
        · rintro rfl
          exact hplus hc
        · rintro rfl
          exact hminus hc
  · cases h

theorem spells_of_ofPiece?_eq_some (h : ofPiece? piece = some t) : Spells piece t := by
  unfold ofPiece? at h
  split at h
  · rename_i kind _ hkind
    cases h
    exact spells_of_symbolKind?_eq_some hkind
  · rename_i kind name hkind hparts
    cases h
    exact spells_of_slotParts?_eq_some hparts
  · rename_i hkind hparts
    obtain ⟨n, hn, rfl⟩ := Option.map_eq_some_iff.1 h
    apply Spells.number n _ _ hn
    · rw [← isSome_symbolKind?_iff, hkind]
      simp
    · rw [← isSome_slotParts?_iff, hparts]
      simp

theorem spells_iff : Spells piece t ↔ ofPiece? piece = some t :=
  ⟨ofPiece?_eq_some_of_spells, spells_of_ofPiece?_eq_some⟩

theorem isSome_ofPiece?_iff : (ofPiece? piece).isSome ↔ Readable piece := by
  unfold ofPiece? Readable
  rw [← isSome_symbolKind?_iff, ← isSome_slotParts?_iff]
  cases symbolKind? piece with
  | some kind => simp
  | none => cases slotParts? piece <;> simp

theorem Spells.lexeme_eq (h : Spells piece t) : t.lexeme = String.ofList piece := by
  cases h <;> rfl

end

section
variable {f : α → Except ε β} {xs : List α}

theorem mapM_cons_eq (f : α → Except ε β) (x : α) (xs : List α) : (x :: xs).mapM f =
    match f x with
    | .error e => .error e
    | .ok y =>
      match xs.mapM f with
      | .error e => .error e
      | .ok ys => .ok (y :: ys) := by
  rw [List.mapM_cons]
  cases f x with
  | error e => rfl
  | ok y => cases xs.mapM f <;> rfl

theorem mapM_append_eq (f : α → Except ε β) (xs ys : List α) : (xs ++ ys).mapM f =
    match xs.mapM f with
    | .error e => .error e
    | .ok zs => (ys.mapM f).map (zs ++ ·) := by
  rw [List.mapM_append]
  cases xs.mapM f with
  | error e => rfl
  | ok zs => cases ys.mapM f <;> rfl

theorem mapM_eq_ok_iff {ys : List β} :
    xs.mapM f = .ok ys ↔ List.Forall₂ (fun x y => f x = .ok y) xs ys := by
  induction xs generalizing ys with
  | nil => cases ys <;> simp [pure, Except.pure]
  | cons x xs ih =>
    rw [mapM_cons_eq, List.forall₂_cons_left_iff]
    cases f x with
    | error e => simp
    | ok y =>
      cases hxs : xs.mapM f with
      | error e => simp [← ih, hxs]
      | ok ys' => simp [← ih, hxs, eq_comm]

theorem mapM_eq_error_iff {e : ε} : xs.mapM f = .error e ↔
    ∃ before x after, xs = before ++ x :: after ∧ (∀ y ∈ before, ∃ z, f y = .ok z) ∧
      f x = .error e := by
  induction xs with
  | nil => simp [pure, Except.pure]
  | cons x xs ih =>
    rw [mapM_cons_eq]
    constructor
    · intro h
      cases hx : f x with
      | error e' =>
        rw [hx] at h
        exact ⟨[], x, xs, rfl, by simp, hx.trans (by simpa using h)⟩
      | ok y =>
        cases hxs : xs.mapM f with
        | error e' =>
          simp only [hx, hxs] at h
          cases h
          obtain ⟨before, x', after, rfl, hbefore, hx'⟩ := ih.1 hxs
          exact ⟨x :: before, x', after, rfl, List.forall_mem_cons.2 ⟨⟨y, hx⟩, hbefore⟩, hx'⟩
        | ok ys => simp [hx, hxs] at h
    · rintro ⟨before, x', after, hsplit, hbefore, hx'⟩
      cases before with
      | nil =>
        obtain ⟨rfl, rfl⟩ := List.cons.inj hsplit
        rw [hx']
      | cons b before =>
        rw [List.cons_append, List.cons.injEq] at hsplit
        obtain ⟨rfl, hxs⟩ := hsplit
        obtain ⟨⟨y, hy⟩, hmore⟩ := List.forall_mem_cons.1 hbefore
        rw [hy, ih.2 ⟨before, x', after, hxs, hmore, hx'⟩]

theorem exists_mapM_eq_ok_iff :
    (∃ ys, xs.mapM f = .ok ys) ↔ ∀ x ∈ xs, ∃ y, f x = .ok y := by
  constructor
  · rintro ⟨ys, hys⟩
    have hall := mapM_eq_ok_iff.1 hys
    clear hys
    induction hall with
    | nil => simp
    | cons hx _ ih => exact List.forall_mem_cons.2 ⟨⟨_, hx⟩, ih⟩
  · intro h
    cases hxs : xs.mapM f with
    | ok ys => exact ⟨ys, rfl⟩
    | error e =>
      obtain ⟨before, x, after, rfl, -, hx⟩ := mapM_eq_error_iff.1 hxs
      obtain ⟨y, hy⟩ := h x (by simp)
      rw [hx] at hy
      cases hy

end

section
variable {line : String} {p : Text.Piece} {t : Token} {tokens : List Token} {e : Malformed}

theorem ofPiece_eq_ok_iff : ofPiece line p = .ok t ↔ Spells p.text t := by
  rw [spells_iff, ofPiece]
  cases ofPiece? p.text <;> simp

theorem exists_ofPiece_eq_ok_iff : (∃ t, ofPiece line p = .ok t) ↔ Readable p.text := by
  simp only [ofPiece_eq_ok_iff, spells_iff, ← isSome_ofPiece?_iff, Option.isSome_iff_exists]

theorem ofPiece_eq_error_iff : ofPiece line p = .error e ↔
    ¬ Readable p.text ∧ e = ⟨line, p.start, String.ofList p.text⟩ := by
  rw [← isSome_ofPiece?_iff, ofPiece]
  cases ofPiece? p.text <;> simp [eq_comm]

theorem ofLine_eq_ok_iff : ofLine line = .ok tokens ↔
    List.Forall₂ (fun p => Spells p.text) (Text.pieces line.toList) tokens := by
  simp only [ofLine, mapM_eq_ok_iff, ofPiece_eq_ok_iff]

theorem exists_ofLine_eq_ok_iff :
    (∃ tokens, ofLine line = .ok tokens) ↔ ∀ p ∈ Text.pieces line.toList, Readable p.text := by
  simp only [ofLine, exists_mapM_eq_ok_iff, exists_ofPiece_eq_ok_iff]

theorem ofLine_eq_error_iff : ofLine line = .error e ↔
    ∃ before p after, Text.pieces line.toList = before ++ p :: after ∧
      (∀ q ∈ before, Readable q.text) ∧ ¬ Readable p.text ∧
      e = ⟨line, p.start, String.ofList p.text⟩ := by
  simp only [ofLine, mapM_eq_error_iff, exists_ofPiece_eq_ok_iff, ofPiece_eq_error_iff]

/-- What stands before a piece is read if the pieces before it are. -/
theorem exists_ofLine_take_eq_ok {before after : List Text.Piece}
    (h : Text.pieces line.toList = before ++ p :: after) (hbefore : ∀ q ∈ before, Readable q.text) :
    ∃ tokens, ofLine (String.ofList (line.toList.take p.start)) = .ok tokens := by
  rw [exists_ofLine_eq_ok_iff, String.toList_ofList, Text.pieces]
  have hpieces := Text.piecesFrom_take h
  rw [Nat.sub_zero] at hpieces
  rwa [hpieces]

end

/-- The pieces of a line are its maximal runs of characters that are no blanks, in turn. A line is
read if some rule applies to each of them, as one token for each by the first rule that does. Else
the first piece that no rule applies to is reported with its place: there the line goes on with the
piece, and what stands before is read. -/
theorem ofLine_reads_pieces (line : String) :
    let pieces := Text.pieces line.toList
    (∀ p, p ∈ pieces ↔ p.IsRunOf line.toList) ∧ pieces.Pairwise (·.start < ·.start) ∧
    ((∃ tokens, ofLine line = .ok tokens) ↔ ∀ p ∈ pieces, Readable p.text) ∧
    match ofLine line with
    | .ok tokens => List.Forall₂ (fun p => Spells p.text) pieces tokens
    | .error e =>
      ∃ before p after, pieces = before ++ p :: after ∧ (∀ q ∈ before, Readable q.text) ∧
        ¬ Readable p.text ∧ e = ⟨line, p.start, String.ofList p.text⟩ ∧
        p.text <+: line.toList.drop p.start ∧
        ∃ tokens, ofLine (String.ofList (line.toList.take p.start)) = .ok tokens := by
  refine ⟨fun p => ?_, Text.pairwise_start_piecesFrom 0 line.toList, exists_ofLine_eq_ok_iff, ?_⟩
  · simp only [Text.pieces, Text.mem_piecesFrom_iff, Nat.zero_add, Text.Piece.IsRunOf]
  · split
    · rename_i tokens htokens
      exact ofLine_eq_ok_iff.1 htokens
    · rename_i e herror
      obtain ⟨before, p, after, hpieces, hbefore, hp, he⟩ := ofLine_eq_error_iff.1 herror
      have hmem : p ∈ Text.pieces line.toList := by simp [hpieces]
      exact ⟨before, p, after, hpieces, hbefore, hp, he, Text.prefix_drop_start_of_mem_pieces hmem,
        exists_ofLine_take_eq_ok hpieces hbefore⟩

-- The symbol `+` is no numeral, `+5` is one and `5+` is neither.
example : ofLine " +\t+5 5+ )" = .error ⟨" +\t+5 5+ )", 6, "5+"⟩ := by
  have hpieces : Text.pieces " +\t+5 5+ )".toList =
      [⟨1, ['+']⟩, ⟨3, ['+', '5']⟩, ⟨6, ['5', '+']⟩, ⟨9, [')']⟩] := by decide +kernel
  rw [ofLine, hpieces]
  rfl

end SlotCalc.Token
