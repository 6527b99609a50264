import Mathlib.Data.List.TakeWhile
import SlotCalc.Proofs.Token.Language

namespace SlotCalc.Token

open Text (Piece pieces)

instance (piece : List Char) : Decidable (Readable piece) :=
  decidable_of_iff _ isSome_ofPiece?_iff

/-- The pieces before the first malformed one. -/
def readablePieces (line : String) : List Piece :=
  (pieces line.toList).takeWhile fun p => Readable p.text

/-- The line up to its first malformed piece. -/
def readableText (line : String) : String :=
  match (pieces line.toList).find? fun p => ¬ Readable p.text with
  | some p => String.ofList (line.toList.take p.start)
  | none => line

/-- A stop as another line reports it. -/
def Stop.inLine (line : String) : Stop → Stop
  | malformed e => malformed { e with line }
  | limit => limit
  | endOfLine => endOfLine

section
variable {line : String} {before rest : List Piece} {tokens : List Token}

theorem takePieces_append (h : List.Forall₂ (fun p => Spells p.text) before tokens) (n : Nat) :
    takePieces line n (before ++ rest) =
      if n ≤ before.length then (tokens.take n, .limit)
      else (tokens ++ (takePieces line (n - before.length) rest).1,
        (takePieces line (n - before.length) rest).2) := by
  induction h generalizing n with
  | nil =>
    cases n with
    | zero => simp [takePieces]
    | succ n => simp
  | cons hp _ ih =>
    cases n with
    | zero => simp [takePieces]
    | succ n =>
      simp only [List.cons_append, takePieces, ofPiece_eq_ok_iff.2 hp, ih n, List.length_cons,
        Nat.add_le_add_iff_right, Nat.add_sub_add_right]
      split <;> rfl

theorem takePieces_take (line : String) (n : Nat) (ps : List Piece) :
    takePieces line n (ps.take n) = takePieces line n ps := by
  induction n generalizing ps with
  | zero => simp [takePieces]
  | succ n ih =>
    cases ps with
    | nil => rfl
    | cons p more => simp only [List.take_succ_cons, takePieces, ih]

/-- The line has no part but to be named in the report. -/
theorem takePieces_inLine (line' : String) (n : Nat) (ps : List Piece) :
    takePieces line' n ps =
      ((takePieces line n ps).1, (takePieces line n ps).2.inLine line') := by
  induction n generalizing ps with
  | zero => simp [takePieces, Stop.inLine]
  | succ n ih =>
    cases ps with
    | nil => rfl
    | cons p more =>
      simp only [takePieces, ofPiece, ih more]
      cases ofPiece? p.text <;> rfl

theorem take_inLine {line' : String} {n : Nat}
    (h : (pieces line'.toList).take n = (pieces line.toList).take n) :
    take n line' = ((take n line).1, (take n line).2.inLine line') := by
  rw [take, ← takePieces_take, h, takePieces_take]
  exact takePieces_inLine line' n _

theorem pieces_eq_readable (line : String) :
    (pieces line.toList = readablePieces line ∧ readableText line = line) ∨
    ∃ p after, pieces line.toList = readablePieces line ++ p :: after ∧ ¬ Readable p.text ∧
      readableText line = String.ofList (line.toList.take p.start) := by
  unfold readablePieces readableText
  cases hfind : (pieces line.toList).find? fun p => ¬ Readable p.text with
  | none =>
    left
    refine ⟨Eq.symm ?_, rfl⟩
    rw [List.takeWhile_eq_self_iff]
    simpa using hfind
  | some p =>
    right
    obtain ⟨hp, before, after, hpieces, hbefore⟩ := List.find?_eq_some_iff_append.1 hfind
    have hp : ¬ Readable p.text := by simpa using hp
    refine ⟨p, after, ?_, hp, rfl⟩
    rw [hpieces, List.takeWhile_append_of_pos (by simpa using hbefore)]
    simp [hp]

theorem readable_readablePieces (line : String) : ∀ p ∈ readablePieces line, Readable p.text :=
  fun _ hp => by simpa using List.mem_takeWhile_imp hp

theorem pieces_readableText (line : String) :
    pieces (readableText line).toList = readablePieces line := by
  obtain ⟨hpieces, htext⟩ | ⟨p, after, hpieces, -, htext⟩ := pieces_eq_readable line
  · rw [htext, hpieces]
  · rw [htext, String.toList_ofList]
    exact Text.piecesFrom_take hpieces

theorem exists_ofLine_readableText (line : String) :
    ∃ tokens, ofLine (readableText line) = .ok tokens ∧
      List.Forall₂ (fun p => Spells p.text) (readablePieces line) tokens := by
  have hreadable : ∀ p ∈ pieces (readableText line).toList, Readable p.text := by
    rw [pieces_readableText]
    exact readable_readablePieces line
  obtain ⟨tokens, htokens⟩ := exists_ofLine_eq_ok_iff.2 hreadable
  refine ⟨tokens, htokens, ?_⟩
  rw [← pieces_readableText]
  exact ofLine_eq_ok_iff.1 htokens

theorem take_cases (h : List.Forall₂ (fun p => Spells p.text) (readablePieces line) tokens)
    (n : Nat) :
    (n ≤ tokens.length ∧ take n line = (tokens.take n, .limit)) ∨
    (tokens.length < n ∧ (∀ p ∈ pieces line.toList, Readable p.text) ∧
      ofLine line = .ok tokens ∧ take n line = (tokens, .endOfLine)) ∨
    (tokens.length < n ∧ (∃ p ∈ pieces line.toList, ¬ Readable p.text) ∧
      ∃ e, ofLine line = .error e ∧ take n line = (tokens, .malformed e)) := by
  rw [← h.length_eq]
  -- Either the readable pieces are enough, or what comes after them decides.
  obtain hn | hn := le_or_gt n (readablePieces line).length
  · left
    refine ⟨hn, ?_⟩
    obtain ⟨rest, hrest⟩ : readablePieces line <+: pieces line.toList := List.takeWhile_prefix _
    rw [take, ← hrest, takePieces_append h, if_pos hn]
  · right
    obtain ⟨m, hm⟩ := Nat.exists_eq_add_one_of_ne_zero (Nat.sub_ne_zero_of_lt hn)
    have htake {rest : List Piece} (hrest : pieces line.toList = readablePieces line ++ rest) :
        take n line = (tokens ++ (takePieces line (m + 1) rest).1,
          (takePieces line (m + 1) rest).2) := by
      rw [take, hrest, takePieces_append h, if_neg (Nat.not_le.2 hn), hm]
    obtain ⟨hpieces, -⟩ | ⟨p, after, hpieces, hp, -⟩ := pieces_eq_readable line
    · left
      refine ⟨hn, ?_, ?_, ?_⟩
      · rw [hpieces]
        exact readable_readablePieces line
      · rwa [ofLine_eq_ok_iff, hpieces]
      · simp [htake (hpieces.trans (List.append_nil _).symm), takePieces]
    · right
      have hreport : ofPiece line p = .error ⟨line, p.start, String.ofList p.text⟩ :=
        ofPiece_eq_error_iff.2 ⟨hp, rfl⟩
      refine ⟨hn, ⟨p, by simp [hpieces], hp⟩, ⟨line, p.start, String.ofList p.text⟩, ?_, ?_⟩
      · exact ofLine_eq_error_iff.2
          ⟨_, p, after, hpieces, readable_readablePieces line, hp, rfl⟩
      · simp [htake hpieces, takePieces, hreport]

end

/-- Of the tokens that a line has before its first malformed piece, `take` gives the first `n`. It
ends at the limit if there are so many, else at the end of the line or with the very report of
`ofLine`. Another line that begins with the same `n` pieces is read alike: only the report of a
malformed piece names the line. -/
theorem take_reads_readable (line : String) (n : Nat) :
    ∃ tokens, ofLine (readableText line) = .ok tokens ∧
      let k := (readablePieces line).length
      let taken := take n line
      tokens.length = k ∧ taken.1 = tokens.take n ∧ taken.1.length = min n k ∧
      (taken.2 = .limit ↔ n ≤ k) ∧
      (taken.2 = .endOfLine ↔ k < n ∧ ∀ p ∈ pieces line.toList, Readable p.text) ∧
      (taken.2 = .endOfLine → ofLine line = .ok taken.1) ∧
      ((∃ e, taken.2 = .malformed e) ↔ k < n ∧ ∃ p ∈ pieces line.toList, ¬ Readable p.text) ∧
      (∀ e, taken.2 = .malformed e → ofLine line = .error e) ∧
      ∀ line', (pieces line'.toList).take n = (pieces line.toList).take n →
        take n line' = (taken.1, taken.2.inLine line') := by
  obtain ⟨tokens, htokens, hspells⟩ := exists_ofLine_readableText line
  refine ⟨tokens, htokens, ?_⟩
  intro k taken
  have hk : tokens.length = k := hspells.length_eq.symm
  have hlater (line' : String) : _ → take n line' = (taken.1, taken.2.inLine line') := take_inLine
  refine ⟨hk, ?_⟩
  obtain ⟨hn, htaken⟩ | ⟨hn, hall, hline, htaken⟩ | ⟨hn, hsome, e, hline, htaken⟩ :=
    take_cases hspells n
  all_goals
    rw [hk] at hn
    have htaken : taken = _ := htaken
    rw [htaken] at hlater ⊢
  -- limit
  · have hlength : (tokens.take n).length = min n k := by rw [List.length_take, hk]
    refine ⟨rfl, hlength, ?_, ?_, ?_, ?_, ?_, hlater⟩
    all_goals simp [hn, Nat.not_lt.2 hn]
  all_goals
    have hlength : tokens.length = min n k := by omega
    have htake : tokens = tokens.take n := (List.take_of_length_le (by omega)).symm
    refine ⟨htake, hlength, ?_, ?_, ?_, ?_, ?_, hlater⟩
  -- end of line
  · simp [hn]
  · simpa [hn] using hall
  · simpa using hline
  · simpa [hn] using hall
  · simp
  -- malformed
  · simp [hn]
  · simpa [hn] using hsome
  · simp
  · simpa [hn] using hsome
  · simpa using hline

theorem take_reads_readable_second_malformed :
    let e : Malformed := ⟨"1 mem 2x 3y", 6, "2x"⟩
    (take 2 "1 mem 2x 3y").2 = .limit ∧ (take 3 "1 mem 2x 3y").2 = .malformed e ∧
      ofLine "1 mem 2x 3y" = .error e ∧
      take 3 "1 mem 2x -" =
        ((take 3 "1 mem 2x 3y").1, .malformed { e with line := "1 mem 2x -" }) ∧
      (take 3 "1 mem").2 = .endOfLine ∧ ofLine "1 mem" = .ok (take 3 "1 mem").1 := by
  intro e
  have hpieces : pieces "1 mem 2x 3y".toList =
      [⟨0, "1".toList⟩, ⟨2, "mem".toList⟩, ⟨6, "2x".toList⟩, ⟨9, "3y".toList⟩] := by decide +kernel
  have hshorter : pieces "1 mem".toList = [⟨0, "1".toList⟩, ⟨2, "mem".toList⟩] := by
    decide +kernel
  have hmalformed : (take 3 "1 mem 2x 3y").2 = .malformed e := by
    rw [take, hpieces]
    rfl
  have hend : (take 3 "1 mem").2 = .endOfLine := by
    rw [take, hshorter]
    rfl
  obtain ⟨-, -, -, -, -, hlimit, -⟩ := take_reads_readable "1 mem 2x 3y" 2
  obtain ⟨-, -, -, -, -, -, -, -, -, hreport, hlater⟩ := take_reads_readable "1 mem 2x 3y" 3
  obtain ⟨-, -, -, -, -, -, -, hall, -⟩ := take_reads_readable "1 mem" 3
  refine ⟨hlimit.2 (by decide +kernel), hmalformed, hreport e hmalformed, ?_, hend, hall hend⟩
  rw [hlater "1 mem 2x -" (by decide +kernel), hmalformed]
  rfl

end SlotCalc.Token
