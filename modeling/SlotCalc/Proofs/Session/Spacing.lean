import SlotCalc.Proofs.Session.Outcome
import SlotCalc.Proofs.Session.Tracking
import SlotCalc.Proofs.Token.RoundTrip

namespace SlotCalc

open Text (Piece pieces)

def SamePieces (a b : String) : Prop :=
  (pieces a.toList).map Piece.text = (pieces b.toList).map Piece.text

namespace Token

/-- The report of a piece that stands in another line, further on. -/
def movedTo (line : String) (offset : Nat) (e : Malformed) : Malformed :=
  { e with line, index := e.index + offset }

section
variable {a b line : String} {tokens tokens' : List Token}

/-- Pieces that have been moved are read as they were, and a report moves with them. -/
theorem mapM_ofPiece_moved (line line' : String) (offset : Nat) (ps : List Piece) :
    (ps.map (Piece.moved offset)).mapM (ofPiece line') =
      (ps.mapM (ofPiece line)).mapError (movedTo line' offset) := by
  induction ps with
  | nil => rfl
  | cons p more ih =>
    rw [List.map_cons, mapM_cons_eq, mapM_cons_eq, ih]
    simp only [ofPiece, Piece.moved]
    cases ofPiece? p.text with
    | none => rfl
    | some t => cases more.mapM (ofPiece line) <;> rfl

theorem ofLine_append_blanks {gap : String} (hne : gap ≠ "")
    (hgap : ∀ c ∈ gap.toList, Text.isBlank c = true) (a b : String) :
    ofLine (a ++ gap ++ b) =
      match ofLine a with
      | .error e => .error (movedTo (a ++ gap ++ b) 0 e)
      | .ok before =>
        ((ofLine b).map (before ++ ·)).mapError
          (movedTo (a ++ gap ++ b) (a.length + gap.length)) := by
  have hne' : gap.toList ≠ [] := fun h => hne (String.toList_eq_nil_iff.1 h)
  have hfirst : (pieces a.toList).map (Piece.moved 0) = pieces a.toList := List.map_id _
  have hpieces : pieces (a ++ gap ++ b).toList = (pieces a.toList).map (Piece.moved 0) ++
      (pieces b.toList).map (Piece.moved (a.length + gap.length)) := by
    rw [hfirst, String.toList_append, String.toList_append,
      Text.pieces_append_blanks hne' hgap, String.length_toList, String.length_toList]
  rw [ofLine, hpieces, mapM_append_eq, mapM_ofPiece_moved a, mapM_ofPiece_moved b, ofLine, ofLine]
  cases (pieces a.toList).mapM (ofPiece a) with
  | error e => rfl
  | ok before => cases (pieces b.toList).mapM (ofPiece b) <;> rfl

theorem ofLine_eq_ok_iff_of_samePieces (h : SamePieces a b) :
    ofLine a = .ok tokens ↔ ofLine b = .ok tokens := by
  rw [ofLine_eq_ok_iff_texts, h, ← ofLine_eq_ok_iff_texts]

theorem ofLine_eq_error_of_samePieces (h : SamePieces a b) {e : Malformed}
    (ha : ofLine a = .error e) :
    ∃ (i : Nat) (p q : Piece), (pieces a.toList)[i]? = some p ∧ (pieces b.toList)[i]? = some q ∧
      p.text = q.text ∧ e = ⟨a, p.start, String.ofList p.text⟩ ∧
      ofLine b = .error ⟨b, q.start, String.ofList q.text⟩ := by
  obtain ⟨before, p, after, hpieces, hbefore, hp, he⟩ := ofLine_eq_error_iff.1 ha
  have htexts : (pieces b.toList).map Piece.text =
      before.map Piece.text ++ p.text :: after.map Piece.text := by
    rw [← h, hpieces, List.map_append, List.map_cons]
  obtain ⟨before', later, hpieces', hbefore', hlater⟩ := List.map_eq_append_iff.1 htexts
  obtain ⟨q, after', rfl, hq, -⟩ := List.map_eq_cons_iff.1 hlater
  have hlength : before'.length = before.length := by
    simpa using congrArg List.length hbefore'
  have hreadable : ∀ q' ∈ before', Readable q'.text := by
    intro q' hq'
    have hmem : q'.text ∈ before.map Piece.text := hbefore' ▸ List.mem_map_of_mem hq'
    obtain ⟨p', hp', htext⟩ := List.mem_map.1 hmem
    exact htext ▸ hbefore p' hp'
  refine ⟨before.length, p, q, ?_, ?_, hq.symm, he, ?_⟩
  · simp [hpieces]
  · simp [hpieces', ← hlength]
  · exact ofLine_eq_error_iff.2 ⟨before', q, after', hpieces', hreadable, hq ▸ hp, rfl⟩

/-- The lexemes tell the pieces, so equal tokens are those of lines with the same pieces. -/
theorem samePieces_of_beq (ha : ofLine a = .ok tokens) (hb : ofLine b = .ok tokens')
    (h : (tokens == tokens') = true) : SamePieces a b := by
  have hlexemes : tokens.map lexeme = tokens'.map lexeme := by
    rw [← List.forall₂_eq_eq_eq, List.forall₂_map_left_iff, List.forall₂_map_right_iff]
    exact (beq_iff_forall₂.1 h).imp fun t t' heq => (beq_iff.1 heq).2.1
  rw [map_lexeme_of_ofLine ha, map_lexeme_of_ofLine hb] at hlexemes
  simpa [SamePieces, Function.comp_def] using congrArg (List.map String.toList) hlexemes

end

end Token

namespace Session

variable {a b : String}

/-- What two lines come to if nothing but the lines themselves is different. Only a malformed piece
is shown in the line. -/
def Alike (a b : String) : Except Rejection Answer → Except Rejection Answer → Prop
  | .ok answer, .ok answer' => answer.value = answer'.value ∧ (answer.display = answer'.display ∨
      ∃ tail, answer.display = a ++ tail ∧ answer'.display = b ++ tail)
  | .error reason, .error reason' => reason.label = reason'.label ∧
      (reason.label ≠ "MalformedNumber" → reason.message = reason'.message)
  | _, _ => False

theorem command?_of_samePieces (h : SamePieces a b) : command? a = command? b := by
  have hfirst (line : String) : (pieces line.toList).head?.bind (fun p => Token.ofPiece? p.text) =
      ((pieces line.toList).map Piece.text).head?.bind Token.ofPiece? := by
    cases pieces line.toList <;> rfl
  rw [command?_eq, command?_eq, hfirst, hfirst, h]

theorem step_of_samePieces (h : SamePieces a b) (config : Config) (state : State) :
    (step config state a).state = (step config state b).state ∧
      Alike a b (step config state a).result (step config state b).result := by
  have hcommand := command?_of_samePieces h
  have houtcome := outcome_step config state a
  generalize step config state a = s at houtcome
  -- Line `b` comes to the outcome of the same kind, and it comes to one thing only.
  cases houtcome with
  | stored command store ha hstore =>
    rw [hcommand] at ha
    rw [← (Outcome.stored command store ha hstore).eq_step]
    exact ⟨rfl, rfl, .inl rfl⟩
  | full command e ha hfull =>
    rw [hcommand] at ha
    rw [← (Outcome.full command e ha hfull).eq_step]
    exact ⟨rfl, rfl, fun _ => rfl⟩
  | evaluated tokens value ha htokens hvalue =>
    rw [hcommand] at ha
    rw [Token.ofLine_eq_ok_iff_of_samePieces h] at htokens
    rw [← (Outcome.evaluated tokens value ha htokens hvalue).eq_step]
    exact ⟨rfl, rfl, .inr
      ⟨" equal " ++ Decimal.shown value, String.append_assoc .., String.append_assoc ..⟩⟩
  | malformed e ha herror =>
    rw [hcommand] at ha
    obtain ⟨i, p, q, -, -, -, -, herror'⟩ := Token.ofLine_eq_error_of_samePieces h herror
    rw [← (Outcome.malformed _ ha herror').eq_step]
    exact ⟨rfl, rfl, fun hne => absurd rfl hne⟩
  | faulty tokens e ha htokens hfault =>
    rw [hcommand] at ha
    rw [Token.ofLine_eq_ok_iff_of_samePieces h] at htokens
    rw [← (Outcome.faulty tokens e ha htokens hfault).eq_step]
    exact ⟨rfl, rfl, fun _ => rfl⟩

/-- How a line is spaced has no effect. Lines with the same pieces are read as the same tokens, with
the same values, or the same piece of both is malformed; and in each state they leave the same state
and come to the same. Lines whose tokens are equal, values left out, have the same pieces, and so
the same values. And of two lines with blanks between them the tokens are those of both, or what is
wrong with one of them is wrong at its place there. -/
theorem samePieces_alike (a b : String) :
    (SamePieces a b →
      ((∃ tokens, Token.ofLine a = .ok tokens ∧ Token.ofLine b = .ok tokens) ∨
        ∃ (i : Nat) (p q : Piece), (pieces a.toList)[i]? = some p ∧
          (pieces b.toList)[i]? = some q ∧ p.text = q.text ∧
          Token.ofLine a = .error ⟨a, p.start, String.ofList p.text⟩ ∧
          Token.ofLine b = .error ⟨b, q.start, String.ofList q.text⟩) ∧
      ∀ config state, (step config state a).state = (step config state b).state ∧
        Alike a b (step config state a).result (step config state b).result) ∧
    (∀ tokens tokens', Token.ofLine a = .ok tokens → Token.ofLine b = .ok tokens' →
      (tokens == tokens') = true → SamePieces a b ∧ tokens = tokens' ∧
        ∀ s, Expr.evaluate s tokens = Expr.evaluate s tokens') ∧
    ∀ gap : String, gap ≠ "" → (∀ c ∈ gap.toList, Text.isBlank c = true) →
      Token.ofLine (a ++ gap ++ b) =
        match Token.ofLine a, Token.ofLine b with
        | .error e, _ => .error { e with line := a ++ gap ++ b }
        | .ok _, .error e =>
          .error { e with line := a ++ gap ++ b, index := e.index + (a.length + gap.length) }
        | .ok before, .ok after => .ok (before ++ after) := by
  refine ⟨?_, ?_, ?_⟩
  · intro h
    refine ⟨?_, step_of_samePieces h⟩
    cases ha : Token.ofLine a with
    | ok tokens => exact .inl ⟨tokens, rfl, (Token.ofLine_eq_ok_iff_of_samePieces h).1 ha⟩
    | error e =>
      obtain ⟨i, p, q, hp, hq, htext, rfl, hb⟩ := Token.ofLine_eq_error_of_samePieces h ha
      exact .inr ⟨i, p, q, hp, hq, htext, rfl, hb⟩
  · intro tokens tokens' ha hb heq
    have h := Token.samePieces_of_beq ha hb heq
    have hsame : tokens = tokens' := by
      rw [Token.ofLine_eq_ok_iff_of_samePieces h, hb] at ha
      exact (Except.ok.inj ha).symm
    exact ⟨h, hsame, fun s => by rw [hsame]⟩
  · intro gap hne hgap
    rw [Token.ofLine_append_blanks hne hgap]
    cases Token.ofLine a with
    | error e => rfl
    | ok before => cases Token.ofLine b <;> rfl

theorem samePieces_alike_malformed :
    let a := "nan * 3x"
    let b := "\tnan  *\u20033x "
    let state : State := { store := .empty none, previous := 2 }
    let tokens : List Token :=
      [{ kind := .number, lexeme := "nan", value := Numeral.notANumber.toFloat },
        { kind := .operator .times, lexeme := "*" }]
    Alike a b (step {} state a).result (step {} state b).result ∧
      Token.ofLine "nan\n* " = .ok tokens ∧ SamePieces "nan *" "nan\n* " ∧
      Token.ofLine ("nan *" ++ "\u3000 " ++ "3x") = .error ⟨"nan *\u3000 3x", 7, "3x"⟩ := by
  intro a b state tokens
  have hline : Token.ofLine "nan *" = .ok tokens := by
    have hpieces : pieces "nan *".toList = [⟨0, "nan".toList⟩, ⟨4, "*".toList⟩] := by decide +kernel
    rw [Token.ofLine, hpieces]
    rfl
  have hspaced : Token.ofLine "nan\n* " = .ok tokens := by
    have hpieces : pieces "nan\n* ".toList = [⟨0, "nan".toList⟩, ⟨4, "*".toList⟩] := by
      decide +kernel
    rw [Token.ofLine, hpieces]
    rfl
  have hpiece : Token.ofLine "3x" = .error ⟨"3x", 0, "3x"⟩ := by
    have hpieces : pieces "3x".toList = [⟨0, "3x".toList⟩] := by decide +kernel
    rw [Token.ofLine, hpieces]
    rfl
  obtain ⟨hsame, -, -⟩ := samePieces_alike a b
  obtain ⟨-, hequal, -⟩ := samePieces_alike "nan *" "nan\n* "
  obtain ⟨-, -, hgap⟩ := samePieces_alike "nan *" "3x"
  have hab : SamePieces a b := by
    unfold SamePieces
    decide +kernel
  refine ⟨((hsame hab).2 {} state).2, hspaced, (hequal _ _ hline hspaced (by decide)).1, ?_⟩
  rw [hgap "\u3000 " (by decide) (List.all_eq_true.1 (by decide)), hline, hpiece]
  rfl

end Session

end SlotCalc
