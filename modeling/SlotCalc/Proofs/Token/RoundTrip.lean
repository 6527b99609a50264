import SlotCalc.Proofs.Token.Language

namespace SlotCalc.Token

/-- The lexeme is a piece, and it spells a token of that kind and name. -/
structure IsSpelt (t : Token) : Prop where
  ne_empty : t.lexeme ≠ ""
  unbroken : ∀ c ∈ t.lexeme.toList, Text.isBlank c = false
  spells : ∃ t', Spells t.lexeme.toList t' ∧ t'.kind = t.kind ∧ t'.name = t.name

section
variable {piece : List Char} {t t' : Token}

theorem beq_iff : (t == t') = true ↔
    t.kind = t'.kind ∧ t.lexeme = t'.lexeme ∧ t.name = t'.name := by
  simp [BEq.beq, same, and_assoc]

theorem Spells.readable (h : Spells piece t) : Readable piece := by
  rw [← isSome_ofPiece?_iff, spells_iff.1 h]
  rfl

theorem Spells.unique (h : Spells piece t) (h' : Spells piece t') : t = t' :=
  Option.some.inj ((spells_iff.1 h).symm.trans (spells_iff.1 h'))

theorem Spells.isSpelt (h : Spells piece t) (hne : piece ≠ [])
    (hunbroken : ∀ c ∈ piece, Text.isBlank c = false) : t.IsSpelt := by
  have hpiece : t.lexeme.toList = piece := by rw [h.lexeme_eq, String.toList_ofList]
  refine ⟨?_, hpiece ▸ hunbroken, t, hpiece ▸ h, rfl, rfl⟩
  intro hempty
  rw [hempty] at hpiece
  exact hne hpiece.symm

theorem IsSpelt.of_beq (h : t.IsSpelt) (heq : (t == t') = true) : t'.IsSpelt := by
  obtain ⟨hkind, hlexeme, hname⟩ := beq_iff.1 heq
  obtain ⟨hne, hunbroken, t'', hspells, hkind', hname'⟩ := h
  rw [hlexeme] at hne hunbroken hspells
  exact ⟨hne, hunbroken, t'', hspells, hkind'.trans hkind, hname'.trans hname⟩

end

section
variable {xs : List α} {ys : List β} {R : α → β → Prop}

theorem forall_mem_of_forall₂ {P : α → Prop} {Q : β → Prop} (h : List.Forall₂ R xs ys)
    (hxs : ∀ x ∈ xs, P x) (hstep : ∀ x y, P x → R x y → Q y) : ∀ y ∈ ys, Q y := by
  induction h with
  | nil => simp
  | cons hxy _ ih =>
    obtain ⟨hx, hmore⟩ := List.forall_mem_cons.1 hxs
    exact List.forall_mem_cons.2 ⟨hstep _ _ hx hxy, ih hmore⟩

theorem beq_iff_forall₂ [BEq α] {xs ys : List α} :
    (xs == ys) = true ↔ List.Forall₂ (fun x y => (x == y) = true) xs ys := by
  induction xs generalizing ys with
  | nil => cases ys <;> simp
  | cons x xs ih => cases ys <;> simp [ih]

end

section
variable {line : String} {tokens : List Token}

theorem ofLine_eq_ok_iff_texts : ofLine line = .ok tokens ↔
    List.Forall₂ Spells ((Text.pieces line.toList).map Text.Piece.text) tokens := by
  rw [ofLine_eq_ok_iff, List.forall₂_map_left_iff]

theorem map_text_pieces_joined (h : ∀ t ∈ tokens, t.IsSpelt) :
    (Text.pieces (joined tokens).toList).map Text.Piece.text =
      tokens.map fun t => t.lexeme.toList := by
  rw [joined, String.toList_intercalate, List.map_map]
  apply Text.map_text_piecesFrom_intercalate
  intro w hw
  obtain ⟨t, ht, rfl⟩ := List.mem_map.1 hw
  refine ⟨?_, (h t ht).unbroken⟩
  intro hnil
  exact (h t ht).ne_empty (String.toList_eq_nil_iff.1 hnil)

/-- The tokens of a line are what their lexemes are read as. -/
theorem isSpelt_of_ofLine (h : ofLine line = .ok tokens) : ∀ t ∈ tokens, t.IsSpelt := by
  refine forall_mem_of_forall₂ (ofLine_eq_ok_iff.1 h)
    (fun p hp => Text.isMaximalRun_of_mem_pieces hp) ?_
  rintro p t ⟨before, after, hrun⟩ hspells
  exact hspells.isSpelt hrun.ne_nil hrun.unbroken

theorem map_lexeme_of_ofLine (h : ofLine line = .ok tokens) :
    tokens.map lexeme = (Text.pieces line.toList).map fun p => String.ofList p.text := by
  symm
  rw [← List.forall₂_eq_eq_eq, List.forall₂_map_left_iff, List.forall₂_map_right_iff]
  exact (ofLine_eq_ok_iff.1 h).imp fun p t hspells => hspells.lexeme_eq.symm

theorem ofLine_joined_of_ofLine (h : ofLine line = .ok tokens) :
    ofLine (joined tokens) = .ok tokens := by
  have htexts : (Text.pieces (joined tokens).toList).map Text.Piece.text =
      (Text.pieces line.toList).map Text.Piece.text := by
    have hlexemes := congrArg (List.map String.toList) (map_lexeme_of_ofLine h)
    simp only [List.map_map, Function.comp_def, String.toList_ofList] at hlexemes
    exact (map_text_pieces_joined (isSpelt_of_ofLine h)).trans hlexemes
  rw [ofLine_eq_ok_iff_texts, htexts]
  exact ofLine_eq_ok_iff_texts.1 h

theorem exists_ofLine_joined (h : ∀ t ∈ tokens, t.IsSpelt) :
    ∃ again, ofLine (joined tokens) = .ok again ∧ (again == tokens) = true := by
  have htexts := map_text_pieces_joined h
  have hreadable : ∀ p ∈ Text.pieces (joined tokens).toList, Readable p.text := by
    intro p hp
    have hmem := List.mem_map_of_mem (f := Text.Piece.text) hp
    rw [htexts, List.mem_map] at hmem
    obtain ⟨t, ht, htext⟩ := hmem
    obtain ⟨t', hspells, -, -⟩ := (h t ht).spells
    exact htext ▸ hspells.readable
  obtain ⟨again, hagain⟩ := exists_ofLine_eq_ok_iff.2 hreadable
  refine ⟨again, hagain, ?_⟩
  have hall := ofLine_eq_ok_iff_texts.1 hagain
  rw [htexts, List.forall₂_map_left_iff] at hall
  apply beq_iff_forall₂.2
  apply List.Forall₂.flip
  apply ((List.forall₂_and_left _ _).2 ⟨h, hall⟩).imp
  rintro t t' ⟨ht, hspells⟩
  obtain ⟨t'', hspells', hkind, hname⟩ := ht.spells
  obtain rfl := hspells.unique hspells'
  rw [flip, beq_iff]
  exact ⟨hkind, by rw [hspells.lexeme_eq, String.ofList_toList], hname⟩

end

/-- Joined tokens are read again as the same tokens if and only if each is what its lexeme is read
as. This is so for the tokens of a line, which come back with their values; joined, they are the
pieces of the line with single blanks between them. -/
theorem ofLine_joined_iff :
    (∀ tokens : List Token,
      (∃ again, ofLine (joined tokens) = .ok again ∧ (again == tokens) = true) ↔
        ∀ t ∈ tokens, t.IsSpelt) ∧
    ∀ (line : String) (tokens : List Token), ofLine line = .ok tokens →
      ofLine (joined tokens) = .ok tokens ∧
      joined tokens = " ".intercalate
        ((Text.pieces line.toList).map fun p => String.ofList p.text) ∧
      ∀ again, ofLine (joined tokens) = .ok again → joined again = joined tokens := by
  constructor
  · intro tokens
    constructor
    · rintro ⟨again, hagain, hsame⟩
      exact forall_mem_of_forall₂ (beq_iff_forall₂.1 hsame) (isSpelt_of_ofLine hagain)
        fun t t' ht heq => ht.of_beq heq
    · exact exists_ofLine_joined
  · intro line tokens htokens
    have hjoined := ofLine_joined_of_ofLine htokens
    refine ⟨hjoined, ?_, ?_⟩
    · rw [joined, map_lexeme_of_ofLine htokens]
    · intro again hagain
      rw [hjoined] at hagain
      obtain rfl := Except.ok.inj hagain
      rfl

theorem ofLine_joined_command_nan :
    let tokens : List Token :=
      [{ kind := .slotMinus, lexeme := "mem+-", name := "+" },
        { kind := .operator .minus, lexeme := "-" },
        { kind := .number, lexeme := "NaN", value := Numeral.notANumber.toFloat }]
    ofLine "\tmem+- -  NaN" = .ok tokens ∧ ofLine (joined tokens) = .ok tokens ∧
      joined tokens = "mem+- - NaN" := by
  intro tokens
  have hpieces : Text.pieces "\tmem+- -  NaN".toList =
      [⟨1, "mem+-".toList⟩, ⟨7, "-".toList⟩, ⟨10, "NaN".toList⟩] := by decide +kernel
  have htokens : ofLine "\tmem+- -  NaN" = .ok tokens := by
    rw [ofLine, hpieces]
    rfl
  obtain ⟨hagain, hjoined, -⟩ := ofLine_joined_iff.2 _ tokens htokens
  rw [hpieces] at hjoined
  exact ⟨htokens, hagain, hjoined.trans (by decide)⟩

end SlotCalc.Token
