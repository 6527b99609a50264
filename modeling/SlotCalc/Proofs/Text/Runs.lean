import SlotCalc.Text

namespace SlotCalc.Text

/-- `run` is no part of a longer run when it stands between `before` and `after`. -/
structure IsMaximalRun (before run after : List Char) : Prop where
  ne_nil : run ≠ []
  unbroken : ∀ c ∈ run, isBlank c = false
  before_blank : ∀ c ∈ before.getLast?, isBlank c = true
  after_blank : ∀ c ∈ after.head?, isBlank c = true

/-- The piece is a maximal run of the text and stands where it says. -/
def Piece.IsRunOf (p : Piece) (text : List Char) : Prop :=
  ∃ before after, text = before ++ p.text ++ after ∧ p.start = before.length ∧
    IsMaximalRun before p.text after

def Piece.moved (offset : Nat) (p : Piece) : Piece := { p with start := p.start + offset }

section
variable {run after : List Char}

theorem unbroken_of_all (h : run.all (!isBlank ·) = true) : ∀ c ∈ run, isBlank c = false := by
  simpa using h

section
variable {p : Char → Bool} (hafter : ∀ c ∈ after.head?, p c = false)
include hafter

theorem takeWhile_of_head : after.takeWhile p = [] := by
  cases after with
  | nil => rfl
  | cons c rest => simp [hafter c rfl]

theorem dropWhile_of_head : after.dropWhile p = after := by
  cases after with
  | nil => rfl
  | cons c rest => simp [hafter c rfl]

theorem takeWhile_run (hrun : ∀ c ∈ run, p c = true) : (run ++ after).takeWhile p = run := by
  rw [List.takeWhile_append_of_pos hrun, takeWhile_of_head hafter, List.append_nil]

theorem dropWhile_run (hrun : ∀ c ∈ run, p c = true) : (run ++ after).dropWhile p = after := by
  rw [List.dropWhile_append_of_pos hrun, dropWhile_of_head hafter]

end

theorem head_dropWhile_blank (text : List Char) :
    ∀ c ∈ (text.dropWhile (!isBlank ·)).head?, isBlank c = true := by
  intro c hc
  have h := List.head?_dropWhile_not (!isBlank ·) text
  rw [hc] at h
  simpa using h

/-- A run is the first piece of the text that it begins. -/
theorem piecesFrom_run (hne : run ≠ []) (hrun : ∀ c ∈ run, isBlank c = false)
    (hafter : ∀ c ∈ after.head?, isBlank c = true) (start : Nat) :
    piecesFrom start (run ++ after) = ⟨start, run⟩ :: piecesFrom (start + run.length) after := by
  obtain ⟨c, rest, rfl⟩ := List.exists_cons_of_ne_nil hne
  obtain ⟨hc, hrest⟩ := List.forall_mem_cons.1 hrun
  rw [List.cons_append, piecesFrom, if_neg (by simp [hc]),
    takeWhile_run (by simpa using hafter) (by simpa using hrest),
    dropWhile_run (by simpa using hafter) (by simpa using hrest)]

theorem piecesFrom_unbroken (hne : run ≠ []) (hrun : ∀ c ∈ run, isBlank c = false) (start : Nat) :
    piecesFrom start run = [⟨start, run⟩] := by
  have hpieces : piecesFrom start (run ++ []) = _ := piecesFrom_run hne hrun (by simp) start
  rwa [List.append_nil, piecesFrom_nil] at hpieces

end

theorem piecesFrom_blanks_append {lead : List Char} (h : ∀ c ∈ lead, isBlank c = true)
    (start : Nat) (text : List Char) :
    piecesFrom start (lead ++ text) = piecesFrom (start + lead.length) text := by
  induction lead generalizing start with
  | nil => rfl
  | cons c lead ih =>
    obtain ⟨hc, hlead⟩ := List.forall_mem_cons.1 h
    rw [List.cons_append, piecesFrom_blank hc, ih hlead, List.length_cons, Nat.add_right_comm,
      Nat.add_assoc]

theorem piecesFrom_blanks {text : List Char} (h : ∀ c ∈ text, isBlank c = true) (start : Nat) :
    piecesFrom start text = [] := by
  have hpieces := piecesFrom_blanks_append h start []
  rwa [List.append_nil, piecesFrom_nil] at hpieces

/-- Every text is empty, begins with a blank, or begins with a run that ends before a blank or with
the text. -/
@[elab_as_elim]
theorem runInduction {motive : Nat → List Char → Prop} (nil : ∀ start, motive start [])
    (blank : ∀ start c rest, isBlank c = true → motive (start + 1) rest → motive start (c :: rest))
    (run : ∀ start run rest, run ≠ [] → (∀ c ∈ run, isBlank c = false) →
      (∀ c ∈ rest.head?, isBlank c = true) → motive (start + run.length) rest →
      motive start (run ++ rest))
    (start : Nat) (text : List Char) : motive start text := by
  induction start, text using piecesFrom.induct with
  | case1 start => exact nil start
  | case2 start c rest hc ih => exact blank start c rest hc ih
  | case3 start c rest hc word ih =>
    have htext : c :: rest = word ++ rest.dropWhile (!isBlank ·) := by
      simp only [word, List.cons_append, List.takeWhile_append_dropWhile]
    rw [htext]
    apply run start word _ (List.cons_ne_nil _ _) _ (head_dropWhile_blank rest) ih
    intro c' hc'
    rcases List.mem_cons.1 hc' with rfl | hmem
    · simpa using hc
    · simpa using List.all_eq_true.1 List.all_takeWhile c' hmem

theorem blank_or_exists_run (text : List Char) : (∀ c ∈ text, isBlank c = true) ∨
    ∃ lead run rest, text = lead ++ run ++ rest ∧ (∀ c ∈ lead, isBlank c = true) ∧ run ≠ [] ∧
      (∀ c ∈ run, isBlank c = false) ∧ ∀ c ∈ rest.head?, isBlank c = true := by
  induction 0, text using runInduction with
  | nil start => simp
  | blank start c rest hc ih =>
    obtain hblank | ⟨lead, run, rest, rfl, hlead, hrun⟩ := ih
    · exact .inl (List.forall_mem_cons.2 ⟨hc, hblank⟩)
    · exact .inr ⟨c :: lead, run, rest, rfl, List.forall_mem_cons.2 ⟨hc, hlead⟩, hrun⟩
  | run start run rest hne hrun hrest ih =>
    exact .inr ⟨[], run, rest, rfl, by simp, hne, hrun, hrest⟩

section
variable {text : List Char} {start : Nat} {p : Piece}

theorem le_start_of_mem_piecesFrom (h : p ∈ piecesFrom start text) : start ≤ p.start := by
  induction start, text using runInduction with
  | nil start => simp [piecesFrom_nil] at h
  | blank start c rest hc ih =>
    rw [piecesFrom_blank hc] at h
    have := ih h
    omega
  | run start run rest hne hrun hrest ih =>
    rw [piecesFrom_run hne hrun hrest] at h
    rcases List.mem_cons.1 h with rfl | hmem
    · exact Nat.le_refl _
    · have := ih hmem
      omega

theorem pairwise_start_piecesFrom (start : Nat) (text : List Char) :
    (piecesFrom start text).Pairwise (·.start < ·.start) := by
  induction start, text using runInduction with
  | nil start => simp [piecesFrom_nil]
  | blank start c rest hc ih => rwa [piecesFrom_blank hc]
  | run start run rest hne hrun hrest ih =>
    rw [piecesFrom_run hne hrun hrest, List.pairwise_cons]
    refine ⟨?_, ih⟩
    intro q hq
    have hpos : 0 < run.length := List.length_pos_iff.2 hne
    have hle := le_start_of_mem_piecesFrom hq
    show start < q.start
    omega

theorem IsMaximalRun.exists_head {before run after : List Char}
    (h : IsMaximalRun before run after) :
    ∃ c rest, run = c :: rest ∧ isBlank c = false := by
  obtain ⟨c, rest, rfl⟩ := List.exists_cons_of_ne_nil h.ne_nil
  exact ⟨c, rest, rfl, h.unbroken c (by simp)⟩

theorem isMaximalRun_cons_blank {c : Char} {before run after : List Char} (hc : isBlank c = true) :
    IsMaximalRun (c :: before) run after ↔ IsMaximalRun before run after := by
  have hlast : (∀ b ∈ (c :: before).getLast?, isBlank b = true) ↔
      ∀ b ∈ before.getLast?, isBlank b = true := by
    cases before <;> simp [hc]
  exact ⟨fun h => ⟨h.ne_nil, h.unbroken, hlast.1 h.before_blank, h.after_blank⟩,
    fun h => ⟨h.ne_nil, h.unbroken, hlast.2 h.before_blank, h.after_blank⟩⟩

theorem IsMaximalRun.after_run {run before more after : List Char}
    (h : IsMaximalRun before more after)
    (hrest : ∀ c ∈ (before ++ more ++ after).head?, isBlank c = true) :
    IsMaximalRun (run ++ before) more after := by
  refine ⟨h.ne_nil, h.unbroken, ?_, h.after_blank⟩
  intro b hb
  cases before with
  | nil =>
    obtain ⟨first, rest, rfl, hfirst⟩ := h.exists_head
    simp [hfirst] at hrest
  | cons c before =>
    rw [List.getLast?_append, List.getLast?_cons, Option.some_or] at hb
    exact h.before_blank b (List.getLast?_cons.trans hb)

/-- A maximal run of a text that begins with a run is that run or stands in the rest. -/
theorem IsMaximalRun.eq_or_in_rest {run rest before more after : List Char}
    (h : IsMaximalRun before more after) (hrun : ∀ c ∈ run, isBlank c = false)
    (hrest : ∀ c ∈ rest.head?, isBlank c = true)
    (htext : run ++ rest = before ++ (more ++ after)) :
    (before = [] ∧ more = run) ∨
      ∃ between, before = run ++ between ∧ rest = between ++ more ++ after ∧
        IsMaximalRun between more after := by
  rcases List.append_eq_append_iff.1 htext with ⟨between, rfl, hbetween⟩ | ⟨tail, rfl, htail⟩
  · right
    refine ⟨between, rfl, by rw [hbetween, List.append_assoc], h.ne_nil, h.unbroken, ?_,
      h.after_blank⟩
    intro b hb
    apply h.before_blank b
    rw [List.getLast?_append, hb]
    rfl
  · left
    by_cases hbefore : before = []
    · subst hbefore
      simp only [List.nil_append] at hrun
      refine ⟨rfl, ?_⟩
      have htake := congrArg (List.takeWhile (!isBlank ·)) htail
      rwa [takeWhile_run (by simpa using h.after_blank) (by simpa using h.unbroken),
        takeWhile_run (by simpa using hrest) (by simpa using hrun)] at htake
    · have hblank := h.before_blank _ (List.getLast?_eq_some_getLast hbefore)
      rw [hrun _ (List.mem_append_left _ (List.getLast_mem hbefore))] at hblank
      cases hblank

/-- The pieces are exactly the maximal runs. -/
theorem mem_piecesFrom_iff : p ∈ piecesFrom start text ↔
    ∃ before after, text = before ++ p.text ++ after ∧ p.start = start + before.length ∧
      IsMaximalRun before p.text after := by
  -- A blank at the beginning only makes `before` longer; a run at the beginning is the first piece,
  -- and the others stand in what follows it.
  induction start, text using runInduction with
  | nil start =>
    simp only [piecesFrom_nil, List.not_mem_nil, false_iff]
    rintro ⟨before, after, htext, -, hrun⟩
    have hnil := List.append_eq_nil_iff.1 htext.symm
    exact hrun.ne_nil (List.append_eq_nil_iff.1 hnil.1).2
  | blank start c rest hc ih =>
    rw [piecesFrom_blank hc, ih]
    constructor
    · rintro ⟨before, after, rfl, hstart, hrun⟩
      refine ⟨c :: before, after, rfl, ?_, (isMaximalRun_cons_blank hc).2 hrun⟩
      rw [hstart, List.length_cons]
      omega
    · rintro ⟨before, after, htext, hstart, hrun⟩
      cases before with
      | nil =>
        obtain ⟨first, more, hfirst, hfirst'⟩ := hrun.exists_head
        rw [hfirst] at htext
        obtain ⟨rfl, -⟩ := List.cons.inj htext
        simp [hc] at hfirst'
      | cons b before =>
        obtain ⟨rfl, hrest⟩ := List.cons.inj htext
        refine ⟨before, after, hrest, ?_, (isMaximalRun_cons_blank hc).1 hrun⟩
        rw [hstart, List.length_cons]
        omega
  | run start run rest hne hrun hrest ih =>
    rw [piecesFrom_run hne hrun hrest, List.mem_cons, ih]
    constructor
    · rintro (rfl | ⟨before, after, rfl, hstart, hmax⟩)
      · exact ⟨[], rest, rfl, rfl, hne, hrun, by simp, hrest⟩
      · refine ⟨run ++ before, after, by simp only [List.append_assoc], ?_, hmax.after_run hrest⟩
        rw [hstart, List.length_append]
        omega
    · rintro ⟨before, after, htext, hstart, hmax⟩
      rw [List.append_assoc] at htext
      rcases hmax.eq_or_in_rest hrun hrest htext with ⟨rfl, hmore⟩ | ⟨between, rfl, hbetween, hmax'⟩
      · left
        cases p
        simp_all
      · right
        refine ⟨between, after, hbetween, ?_, hmax'⟩
        rw [hstart, List.length_append]
        omega

theorem isMaximalRun_of_mem_pieces {text : List Char} {p : Piece} (h : p ∈ pieces text) :
    ∃ before after, IsMaximalRun before p.text after := by
  obtain ⟨before, after, -, -, hrun⟩ := mem_piecesFrom_iff.1 h
  exact ⟨before, after, hrun⟩

theorem prefix_drop_start_of_mem_pieces {text : List Char} {p : Piece} (h : p ∈ pieces text) :
    p.text <+: text.drop p.start := by
  obtain ⟨before, after, rfl, hstart, -⟩ := mem_piecesFrom_iff.1 h
  rw [hstart, Nat.zero_add, List.append_assoc, List.drop_left]
  exact List.prefix_append p.text after

/-- The pieces of what stands before a piece are the pieces before it. -/
theorem piecesFrom_take {before after : List Piece}
    (h : piecesFrom start text = before ++ p :: after) :
    piecesFrom start (text.take (p.start - start)) = before := by
  induction start, text using runInduction generalizing before with
  | nil start => simp [piecesFrom_nil] at h
  | blank start c rest hc ih =>
    rw [piecesFrom_blank hc] at h
    have hmem : p ∈ piecesFrom (start + 1) rest := by simp [h]
    have hstart := le_start_of_mem_piecesFrom hmem
    have htake : p.start - start = p.start - (start + 1) + 1 := by omega
    rw [htake, List.take_succ_cons, piecesFrom_blank hc]
    exact ih h
  | run start run rest hne hrun hrest ih =>
    rw [piecesFrom_run hne hrun hrest] at h
    cases before with
    | nil =>
      obtain ⟨rfl, -⟩ := List.cons.inj h
      simp [piecesFrom_nil]
    | cons first before =>
      rw [List.cons_append, List.cons.injEq] at h
      obtain ⟨rfl, hlater⟩ := h
      have hmem : p ∈ piecesFrom (start + run.length) rest := by simp [hlater]
      have hstart := le_start_of_mem_piecesFrom hmem
      have htake : p.start - start - run.length = p.start - (start + run.length) := by omega
      rw [List.take_append, List.take_of_length_le (by omega), htake,
        piecesFrom_run hne hrun, ih hlater]
      intro c hc
      rw [List.head?_take] at hc
      split at hc
      · cases hc
      · exact hrest c hc

end

theorem piecesFrom_add (start offset : Nat) (text : List Char) :
    piecesFrom (start + offset) text = (piecesFrom start text).map (Piece.moved offset) := by
  induction start, text using runInduction with
  | nil start => simp only [piecesFrom_nil, List.map_nil]
  | blank start c rest hc ih =>
    rw [piecesFrom_blank hc, piecesFrom_blank hc, ← ih, Nat.add_right_comm]
  | run start run rest hne hrun hrest ih =>
    rw [piecesFrom_run hne hrun hrest, piecesFrom_run hne hrun hrest, List.map_cons, ← ih,
      Nat.add_right_comm]
    rfl

/-- A blank ends a piece, so what stands before it and after it is read apart. -/
theorem piecesFrom_append {more : List Char} (h : ∀ c ∈ more.head?, isBlank c = true)
    (start : Nat) (text : List Char) : piecesFrom start (text ++ more) =
      piecesFrom start text ++ piecesFrom (start + text.length) more := by
  induction start, text using runInduction with
  | nil start => simp only [piecesFrom_nil, List.nil_append, List.length_nil, Nat.add_zero]
  | blank start c rest hc ih =>
    rw [List.cons_append, piecesFrom_blank hc, piecesFrom_blank hc, ih, List.length_cons,
      Nat.add_right_comm, Nat.add_assoc]
  | run start run rest hne hrun hrest ih =>
    have hlater : ∀ c ∈ (rest ++ more).head?, isBlank c = true := by
      cases rest with
      | nil => exact h
      | cons c rest => exact hrest
    rw [List.append_assoc, piecesFrom_run hne hrun hlater, piecesFrom_run hne hrun hrest, ih,
      List.length_append, Nat.add_assoc]
    rfl

theorem pieces_append_blanks {gap : List Char} (hne : gap ≠ [])
    (h : ∀ c ∈ gap, isBlank c = true) (text more : List Char) : pieces (text ++ gap ++ more) =
      pieces text ++ (pieces more).map (Piece.moved (text.length + gap.length)) := by
  have hhead : ∀ c ∈ (gap ++ more).head?, isBlank c = true := by
    obtain ⟨c, rest, rfl⟩ := List.exists_cons_of_ne_nil hne
    exact fun c' hc' => h c' (by simp_all)
  rw [pieces, List.append_assoc, piecesFrom_append hhead, piecesFrom_blanks_append h, Nat.add_assoc,
    piecesFrom_add]
  rfl

theorem map_text_piecesFrom_intercalate {words : List (List Char)}
    (h : ∀ w ∈ words, w ≠ [] ∧ ∀ c ∈ w, isBlank c = false) (start : Nat) :
    (piecesFrom start ([' '].intercalate words)).map Piece.text = words := by
  induction words generalizing start with
  | nil => simp [piecesFrom_nil]
  | cons w more ih =>
    obtain ⟨⟨hne, hw⟩, hmore⟩ := List.forall_mem_cons.1 h
    cases more with
    | nil =>
      rw [List.intercalate_singleton, piecesFrom_unbroken hne hw]
      rfl
    | cons w' more =>
      rw [List.intercalate_cons_cons, List.append_assoc,
        piecesFrom_run hne hw (by simp [isBlank_space]), List.singleton_append,
        piecesFrom_blank isBlank_space, List.map_cons, ih hmore]

end SlotCalc.Text
