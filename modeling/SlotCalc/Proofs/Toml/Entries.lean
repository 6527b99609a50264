import SlotCalc.Proofs.Command.Lines
import SlotCalc.Proofs.Config.Table
import SlotCalc.Proofs.Text.Runs
import SlotCalc.Proofs.Toml.Written
import SlotCalc.Toml.Sections

namespace SlotCalc.Toml

/-- A key that stands without quotes. -/
def IsBare (key : String) : Prop := key ≠ "" ∧ ∀ c ∈ key.toList, isBareKeyChar c = true

def WritesEntry (e : String × Value) (line : String) : Prop :=
  ∃ text, Writes e.2 text ∧ line = e.1 ++ " = " ++ String.ofList text

/-- An entry that is written on a line as it is. -/
structure IsPlain (e : String × Value) : Prop where
  bare : IsBare e.1
  integer (n : Int) (h : e.2 = .integer n) : 1 ≤ n ∧ n < 10 ^ 4300

/-- What has been read after some entries of the first section. -/
def inSection (name : String) (t : Table) : Progress :=
  { root := [(name, .table t)], marks := { opened := [[name]] }, current := [name] }

section
variable {c : Char} {key name : String} {v : Value} {text rest more : List Char} {t : Table}

theorem not_blank_of_isBareKeyChar (h : isBareKeyChar c = true) : isTomlBlank c = false := by
  rw [← Bool.not_eq_true]
  intro hblank
  simp only [isTomlBlank, Bool.or_eq_true, decide_eq_true_eq] at hblank
  rcases hblank with rfl | rfl <;> cases h

theorem ne_break_of_isBareKeyChar (h : isBareKeyChar c = true) : c ≠ '\n' := by
  rintro rfl
  cases h

theorem IsBare.exists_cons (h : IsBare key) :
    ∃ c more, key.toList = c :: more ∧ isBareKeyChar c = true := by
  have hne : key.toList ≠ [] := by simpa using h.1
  obtain ⟨c, more, hkey⟩ := List.exists_cons_of_ne_nil hne
  exact ⟨c, more, hkey, h.2 c (by simp [hkey])⟩

theorem skipBlanks_eq (h : ∀ c ∈ rest.head?, isTomlBlank c = false) : skipBlanks rest = rest :=
  Text.dropWhile_of_head h

theorem keyPart?_bare (h : IsBare key) (hrest : ∀ c ∈ rest.head?, isBareKeyChar c = false) :
    keyPart? (key.toList ++ rest) = some (key, rest) := by
  have htake := Text.takeWhile_run hrest h.2
  have hdrop := Text.dropWhile_run hrest h.2
  obtain ⟨c, more, hkey, hc⟩ := h.exists_cons
  unfold keyPart?
  split
  · rename_i heq
    rw [hkey] at heq
    cases heq
    cases hc
  · rename_i heq
    rw [hkey] at heq
    cases heq
    cases hc
  · rw [htake, hdrop, hkey]
    dsimp only
    rw [← hkey, String.ofList_toList]

theorem key?_bare (h : IsBare key) (rest : List Char)
    (hrest : ∀ c ∈ rest.head?, isBareKeyChar c = false)
    (hpoint : (skipBlanks rest).head? ≠ some '.') (fuel : Nat) :
    key? (fuel + 1) (key.toList ++ rest) = some ([key], skipBlanks rest) := by
  rw [key?, keyPart?_bare h hrest, Option.bind_some]
  dsimp only
  split
  · rename_i more heq
    rw [heq] at hpoint
    exact absurd rfl hpoint
  · rfl

theorem keyAndEquals?_bare (h : IsBare key) (hrest : ∀ c ∈ rest.head?, isTomlBlank c = false) :
    keyAndEquals? (key.toList ++ ' ' :: '=' :: ' ' :: rest) = some ([key], rest) := by
  have hequals : skipBlanks (' ' :: '=' :: ' ' :: rest) = '=' :: ' ' :: rest := rfl
  have hblank : skipBlanks (' ' :: rest) = rest := skipBlanks_eq hrest
  have hread := key?_bare h (' ' :: '=' :: ' ' :: rest) (by simp [isBareKeyChar])
    (by rw [hequals]; simp)
  obtain ⟨fuel, hfuel⟩ := Nat.exists_eq_add_one_of_ne_zero
    (show (key.toList ++ ' ' :: '=' :: ' ' :: rest).length ≠ 0 by simp)
  rw [keyAndEquals?, hfuel, hread, hequals, Option.bind_some]
  show some ([key], skipBlanks (' ' :: rest)) = _
  rw [hblank]

theorem Writes.isContainer (h : Writes v text) : v.isContainer = false := by
  cases h <;> rfl

theorem Writes.exists_cons (h : Writes v text) : ∃ c more, text = c :: more ∧
    c ≠ '[' ∧ c ≠ '\x7b' ∧ isTomlBlank c = false := by
  cases h with
  | integer n =>
    obtain ⟨d, more, hdigits⟩ := List.exists_cons_of_ne_nil (Nat.toDigits_ne_nil (b := 10) (n := n))
    have hd : d.isDigit = true :=
      Decimal.areDigits_toDigits n d (by rw [hdigits]; exact List.mem_cons_self ..)
    refine ⟨d, more, hdigits, ?_, ?_, ?_⟩
    · rintro rfl
      cases hd
    · rintro rfl
      cases hd
    · rw [← Bool.not_eq_true]
      intro hblank
      simp only [isTomlBlank, Bool.or_eq_true, decide_eq_true_eq] at hblank
      rcases hblank with rfl | rfl <;> cases hd
  | boolean b => cases b <;> exact ⟨_, _, rfl, by decide, by decide, by decide⟩
  | text s body h => exact ⟨_, _, rfl, by decide, by decide, by decide⟩

theorem Writes.head_not_blank (h : Writes v text) (rest : List Char) :
    ∀ c ∈ (text ++ rest).head?, isTomlBlank c = false := by
  obtain ⟨c, more, rfl, -, -, hc⟩ := h.exists_cons
  rintro d ⟨⟩
  exact hc

theorem anyValue_eq_scalarValue (hlist : c ≠ '[') (htable : c ≠ '\x7b') :
    anyValue (c :: rest) = scalarValue (c :: rest) := by
  rw [anyValue, value]
  · rintro more ⟨⟩
    exact hlist rfl
  · rintro more ⟨⟩
    exact htable rfl

theorem anyValue_writes (h : Writes v text) (hrest : AtEnd rest)
    (hinteger : ∀ n : Int, v = .integer n → 1 ≤ n ∧ n < 10 ^ 4300) :
    anyValue (text ++ rest) = .ok (v, rest) := by
  rw [← scalarValue_writes h hrest hinteger]
  obtain ⟨c, more, rfl, hlist, htable, -⟩ := h.exists_cons
  exact anyValue_eq_scalarValue hlist htable

theorem header?_bare (h : IsBare name) (rest : List Char) :
    header? "]" (name.toList ++ ']' :: rest) = some ([name], rest) := by
  have hblank : skipBlanks (name.toList ++ ']' :: rest) = name.toList ++ ']' :: rest := by
    obtain ⟨c, more, hname, hc⟩ := h.exists_cons
    apply skipBlanks_eq
    rw [hname]
    rintro c ⟨⟩
    exact not_blank_of_isBareKeyChar hc
  have hclosing : skipBlanks (']' :: rest) = ']' :: rest :=
    skipBlanks_eq (by simp [isTomlBlank])
  have hread := key?_bare h (']' :: rest) (by simp [isBareKeyChar]) (by rw [hclosing]; simp)
  obtain ⟨fuel, hfuel⟩ := Nat.exists_eq_add_one_of_ne_zero
    (show (name.toList ++ ']' :: rest).length ≠ 0 by simp)
  rw [header?, hblank, hfuel, hread, hclosing]
  rfl

theorem statement_header (h : IsBare name) (rest : List Char) :
    statement {} ('[' :: (name.toList ++ ']' :: rest)) = .ok (inSection name [], rest) := by
  have hread := header?_bare h rest
  obtain ⟨c, more, hname, hc⟩ := h.exists_cons
  unfold statement
  split
  · rename_i heq
    rw [hname] at heq
    cases heq
    cases hc
  · rename_i heq
    cases heq
    rw [hread]
    rfl
  · rename_i heq
    cases heq
  · rename_i hlist htable hcomment
    exact absurd rfl (htable _)

theorem statement_entry (h : IsBare key) (hrest : ∀ c ∈ rest.head?, isTomlBlank c = false)
    (p : Progress) : statement p (key.toList ++ ' ' :: '=' :: ' ' :: rest) =
      (anyValue rest).bind fun (v, rest) =>
        (orInvalid (p.addEntry [key] v)).map fun p => (p, rest) := by
  have hfirst (d : Char) (more : List Char)
      (heq : key.toList ++ ' ' :: '=' :: ' ' :: rest = d :: more) : isBareKeyChar d = true := by
    obtain ⟨c, later, hkey, hc⟩ := h.exists_cons
    rw [hkey, List.cons_append] at heq
    obtain ⟨rfl, -⟩ := List.cons.inj heq
    exact hc
  unfold statement
  split
  · rename_i heq
    cases hfirst _ _ heq
  · rename_i heq
    cases hfirst _ _ heq
  · rename_i heq
    cases hfirst _ _ heq
  · rw [keyAndEquals?_bare h hrest]
    rfl

theorem addEntry_inSection (hkey : key ∉ t.keys) (hv : v.isContainer = false) :
    (inSection name t).addEntry [key] v = some (inSection name (t ++ [(key, v)])) := by
  have hnew : t.get? key = none := Table.get?_eq_none_iff.2 hkey
  have hadded : addNew key v t = some (t ++ [(key, v)]) := by
    simp [addNew, hnew, Table.put]
  simp [Progress.addEntry, inSection, Progress.through, Marks.isClosed, changeAt, Table.get?,
    hadded, hv, Table.put]

/-- An entry whose value is read is added. -/
theorem statement_of_anyValue (name : String) (hkey : IsBare key) (hnew : key ∉ t.keys)
    (hv : v.isContainer = false) (htext : ∀ c ∈ text.head?, isTomlBlank c = false)
    (h : anyValue text = .ok (v, rest)) :
    statement (inSection name t) (key.toList ++ ' ' :: '=' :: ' ' :: text) =
      .ok (inSection name (t ++ [(key, v)]), rest) := by
  rw [statement_entry hkey htext, h]
  show (orInvalid ((inSection name t).addEntry [key] v)).map _ = _
  rw [addEntry_inSection hnew hv]
  rfl

theorem statements_cons (hblank : isTomlBlank c = false) (hbreak : c ≠ '\n') (fuel : Nat)
    (p : Progress) : statements (fuel + 1) p (c :: text) =
      (statement p (c :: text)).bind fun (p, rest) =>
        (orInvalid (skipComment? (skipBlanks rest))).bind fun
          | [] => .ok p
          | '\n' :: rest => statements fuel p rest
          | _ => .error (.reported {}) := by
  have hskip : skipBlanks (c :: text) = c :: text :=
    skipBlanks_eq (by rintro d ⟨⟩; exact hblank)
  rw [statements, hskip]
  split
  · rename_i heq
    cases heq
  · rename_i heq
    obtain ⟨rfl, -⟩ := List.cons.inj heq
    exact absurd rfl hbreak
  · rfl

section
variable {p p' : Progress} (hblank : isTomlBlank c = false) (hbreak : c ≠ '\n') (fuel : Nat)
include hblank hbreak

theorem statements_line (h : statement p (c :: text) = .ok (p', '\n' :: rest)) :
    statements (fuel + 1) p (c :: text) = statements fuel p' rest := by
  rw [statements_cons hblank hbreak, h]
  rfl

theorem statements_last_line (h : statement p (c :: text) = .ok (p', [])) :
    statements (fuel + 1) p (c :: text) = .ok p' := by
  rw [statements_cons hblank hbreak, h]
  rfl

theorem statements_error {e : Failure Invalid} (h : statement p (c :: text) = .error e) :
    statements (fuel + 1) p (c :: text) = .error e := by
  rw [statements_cons hblank hbreak, h]
  rfl

end

section
variable {e : String × Value} {line : String}

theorem WritesEntry.toList_eq (h : WritesEntry e line) :
    ∃ text, Writes e.2 text ∧ line.toList = e.1.toList ++ ' ' :: '=' :: ' ' :: text := by
  obtain ⟨text, htext, rfl⟩ := h
  exact ⟨text, htext, by simp⟩

theorem statement_writesEntry (name : String) (hplain : IsPlain e) (hnew : e.1 ∉ t.keys)
    (h : WritesEntry e line) (hrest : AtEnd rest) :
    statement (inSection name t) (line.toList ++ rest) =
      .ok (inSection name (t ++ [e]), rest) := by
  obtain ⟨text, hwrites, hline⟩ := h.toList_eq
  have hline : line.toList ++ rest = e.1.toList ++ ' ' :: '=' :: ' ' :: (text ++ rest) := by
    rw [hline]
    simp only [List.append_assoc, List.cons_append]
  rw [hline]
  exact statement_of_anyValue name hplain.bare hnew hwrites.isContainer
    (hwrites.head_not_blank rest) (anyValue_writes hwrites hrest hplain.integer)

theorem WritesEntry.exists_cons (hplain : IsPlain e) (h : WritesEntry e line) :
    ∃ c more, line.toList = c :: more ∧ isTomlBlank c = false ∧ c ≠ '\n' := by
  obtain ⟨text, -, hline⟩ := h.toList_eq
  obtain ⟨c, more, hkey, hc⟩ := hplain.bare.exists_cons
  refine ⟨c, more ++ ' ' :: '=' :: ' ' :: text, ?_, not_blank_of_isBareKeyChar hc,
    ne_break_of_isBareKeyChar hc⟩
  rw [hline, hkey]
  rfl

end

theorem statements_entries (name : String) {t entries : Table} {lines : List String} {text : String}
    {fuel : Nat} (h : List.Forall₂ WritesEntry entries lines) (hplain : ∀ e ∈ entries, IsPlain e)
    (hkeys : (Table.keys (t ++ entries)).Nodup) (htext : LineEnd.lineFeed.Writes lines text)
    (hfuel : text.toList.length < fuel) :
    statements fuel (inSection name t) text.toList = .ok (inSection name (t ++ entries)) := by
  -- Each line adds one entry to the table, and its key is none of those before it.
  induction h generalizing t text fuel with
  | nil =>
    obtain ⟨fuel, rfl⟩ := Nat.exists_eq_add_one_of_ne_zero (Nat.ne_zero_of_lt hfuel)
    rw [htext.nil_eq, List.append_nil]
    rfl
  | @cons e line entries lines he hmore ih =>
    obtain ⟨fuel, rfl⟩ := Nat.exists_eq_add_one_of_ne_zero (Nat.ne_zero_of_lt hfuel)
    obtain ⟨hplain_e, hplain⟩ := List.forall_mem_cons.1 hplain
    have hnew : e.1 ∉ t.keys := by
      simp only [Table.keys, List.map_append, List.map_cons] at hkeys
      exact fun hmem => List.disjoint_of_nodup_append hkeys hmem (List.mem_cons_self ..)
    have hkeys : (Table.keys ((t ++ [e]) ++ entries)).Nodup := by
      rwa [List.append_assoc]
    have happend : t ++ e :: entries = (t ++ [e]) ++ entries := by
      rw [List.append_assoc]
      rfl
    obtain ⟨c, later, hline, hblank, hbreak⟩ := he.exists_cons hplain_e
    rcases htext.cons_cases with ⟨more, hwrites, hsplit⟩ | ⟨rfl, rfl⟩
    · have hread := statement_writesEntry name hplain_e hnew he (atEnd_break more.toList)
      have hfuel : more.toList.length < fuel := by
        rw [hsplit] at hfuel
        simp only [List.length_append, LineEnd.text] at hfuel
        have hone : "\n".toList.length = 1 := rfl
        omega
      have hfeed : LineEnd.lineFeed.text.toList ++ more.toList = '\n' :: more.toList := rfl
      rw [hsplit, hfeed]
      rw [hline, List.cons_append] at hread ⊢
      rw [statements_line hblank hbreak fuel hread, ih hplain hkeys hwrites hfuel, happend]
    · have hread := statement_writesEntry name hplain_e hnew he atEnd_nil
      cases hmore
      rw [List.append_nil, hline] at hread
      rw [hline, statements_last_line hblank hbreak fuel hread]

theorem normalBreaks_append (h : '\r' ∉ text) (rest : List Char) :
    normalBreaks (text ++ rest) = text ++ normalBreaks rest := by
  induction text with
  | nil => rfl
  | cons c text ih =>
    obtain ⟨hc, htext⟩ := not_or.1 (List.mem_cons.not.1 h)
    have hcons (rest : List Char) : normalBreaks (c :: rest) = c :: normalBreaks rest :=
      normalBreaks.eq_2 c rest fun _ heq _ => hc heq.symm
    rw [List.cons_append, hcons, ih htext, List.cons_append]

theorem normalBreaks_join {e : LineEnd} (he : e ≠ .carriageReturn) {lines : List String}
    (h : ∀ line ∈ lines, '\r' ∉ line.toList) (rest : List Char) :
    normalBreaks ((e.join lines).toList ++ rest) =
      (LineEnd.lineFeed.join lines).toList ++ normalBreaks rest := by
  have hend (rest : List Char) : normalBreaks (e.text.toList ++ rest) =
      LineEnd.lineFeed.text.toList ++ normalBreaks rest := by
    cases e with
    | lineFeed | both => rfl
    | carriageReturn => exact absurd rfl he
  induction lines with
  | nil => rfl
  | cons line lines ih =>
    obtain ⟨hline, hmore⟩ := List.forall_mem_cons.1 h
    rw [LineEnd.toList_join_cons, LineEnd.toList_join_cons]
    simp only [List.append_assoc]
    rw [normalBreaks_append hline, hend, ih hmore]

/-- Lines that end with a carriage return and a line feed are those that end with the line feed. -/
theorem normalBreaks_writes {e : LineEnd} (he : e ≠ .carriageReturn) {lines : List String}
    (h : ∀ line ∈ lines, '\r' ∉ line.toList) {text : String} (htext : e.Writes lines text) :
    ∃ normal, LineEnd.lineFeed.Writes lines normal ∧
      normalBreaks text.toList = normal.toList := by
  have hall (last : List Char) (hlast : '\r' ∉ last) : normalBreaks last = last := by
    have hnormal := normalBreaks_append hlast []
    rwa [List.append_nil, normalBreaks, List.append_nil] at hnormal
  cases htext with
  | ended =>
    refine ⟨_, .ended lines, ?_⟩
    have hjoin := normalBreaks_join he h []
    rwa [List.append_nil, normalBreaks, List.append_nil] at hjoin
  | unended lines last hne =>
    obtain ⟨hlines, hlast⟩ := List.forall_mem_append.1 h
    refine ⟨_, .unended lines last hne, ?_⟩
    rw [String.toList_append, normalBreaks_join he hlines,
      hall _ (hlast last (List.mem_singleton_self last)), String.toList_append]

theorem IsHexDigit.ne_return {value : Nat} (h : IsHexDigit value c) : c ≠ '\r' := by
  rintro rfl
  cases hexValue?_of_isHexDigit h

theorem Quotes.return_not_mem (h : Quotes c text) : '\r' ∉ text := by
  cases h with
  | escaped h => rcases h with rfl | rfl <;> decide
  | control high low x y h hvalue hx hy =>
    have hx := hx.ne_return.symm
    have hy := hy.ne_return.symm
    simp [hx, hy]
  | itself hescaped hcontrol =>
    rw [List.mem_singleton]
    rintro rfl
    exact hcontrol (.inl (by decide))

theorem QuotesAll.return_not_mem {chars : List Char} (h : QuotesAll chars text) :
    '\r' ∉ text := by
  induction h with
  | nil => exact List.not_mem_nil
  | cons h _ ih => exact fun hmem => (List.mem_append.1 hmem).elim h.return_not_mem ih

theorem Writes.return_not_mem (h : Writes v text) : '\r' ∉ text := by
  cases h with
  | integer n => exact fun hmem => by cases Decimal.areDigits_toDigits n _ hmem
  | boolean b => cases b <;> decide
  | text s body h => simpa using h.return_not_mem

theorem IsBare.return_not_mem (h : IsBare key) : '\r' ∉ key.toList :=
  fun hmem => by cases h.2 _ hmem

theorem WritesEntry.return_not_mem {e : String × Value} {line : String} (hkey : IsBare e.1)
    (h : WritesEntry e line) : '\r' ∉ line.toList := by
  obtain ⟨text, htext, hline⟩ := h.toList_eq
  rw [hline]
  simp [hkey.return_not_mem, htext.return_not_mem]

theorem return_not_mem_of_writesEntry {entries : Table} {lines : List String}
    (h : List.Forall₂ WritesEntry entries lines) (hkeys : ∀ e ∈ entries, IsBare e.1) :
    ∀ line ∈ lines, '\r' ∉ line.toList := by
  induction h with
  | nil => exact List.forall_mem_nil _
  | cons he _ ih =>
    obtain ⟨hkey, hkeys⟩ := List.forall_mem_cons.1 hkeys
    exact List.forall_mem_cons.2 ⟨he.return_not_mem hkey, ih hkeys⟩

/-- A section of plain entries is read back, whatever its lines end with. -/
theorem document_section {entries : Table} {lines : List String} {text : String} {e : LineEnd}
    (hname : IsBare name) (h : List.Forall₂ WritesEntry entries lines)
    (hplain : ∀ e ∈ entries, IsPlain e) (hkeys : entries.keys.Nodup) (he : e ≠ .carriageReturn)
    (htext : e.Writes (("[" ++ name ++ "]") :: lines) text) :
    document text = .ok [(name, .table entries)] := by
  have hheader : ("[" ++ name ++ "]").toList = '[' :: (name.toList ++ [']']) := by simp
  have hlines : ∀ line ∈ ("[" ++ name ++ "]") :: lines, '\r' ∉ line.toList := by
    have hreturn : '\r' ∉ ("[" ++ name ++ "]").toList := by
      rw [hheader]
      simp [hname.return_not_mem]
    exact List.forall_mem_cons.2
      ⟨hreturn, return_not_mem_of_writesEntry h fun e he => (hplain e he).bare⟩
  obtain ⟨normal, hnormal, hbreaks⟩ := normalBreaks_writes he hlines htext
  have hread : statements (normal.toList.length + 1) {} normal.toList =
      .ok (inSection name entries) := by
    rcases hnormal.cons_cases with ⟨more, hmore, hsplit⟩ | ⟨rfl, rfl⟩
    · have hopen := statement_header hname ('\n' :: more.toList)
      have htext : normal.toList = '[' :: (name.toList ++ ']' :: '\n' :: more.toList) := by
        rw [hsplit, hheader, List.cons_append, List.append_assoc]
        rfl
      have hfuel : more.toList.length < normal.toList.length := by
        rw [htext]
        simp only [List.length_cons, List.length_append]
        omega
      have hkeys : (Table.keys ([] ++ entries)).Nodup := hkeys
      have hentries := statements_entries name h hplain hkeys hmore hfuel
      rw [htext] at hentries ⊢
      rw [statements_line (by decide) (by decide) _ hopen, hentries, List.nil_append]
    -- A header alone, which need not have a line end.
    · have hopen := statement_header hname []
      cases h
      rw [hheader]
      exact statements_last_line (by decide) (by decide) _ hopen
  rw [document, hbreaks, hread]
  rfl

theorem anyValue_toDigits {n : Nat} (hn : n ≠ 0) (hrest : AtEnd rest) :
    anyValue (Nat.toDigits 10 n ++ rest) =
      if n < integerLimit then .ok (.integer n, rest) else .error (.broken .integerTooLong) := by
  rw [← scalarValue_toDigits hn hrest]
  obtain ⟨c, more, hdigits, hlist, htable, -⟩ := (Writes.integer n).exists_cons
  rw [hdigits]
  exact anyValue_eq_scalarValue hlist htable

theorem statement_integer {n : Nat} (name : String) (hkey : IsBare key) (hn : n ≠ 0)
    (hrest : AtEnd rest) :
    statement (inSection name []) (key.toList ++ ' ' :: '=' :: ' ' :: (Nat.toDigits 10 n ++ rest)) =
      if n < integerLimit then .ok (inSection name [(key, .integer n)], rest)
      else .error (.broken .integerTooLong) := by
  have hhead := (Writes.integer n).head_not_blank rest
  have hvalue := anyValue_toDigits hn hrest
  split_ifs at hvalue ⊢
  · exact statement_of_anyValue name hkey List.not_mem_nil rfl hhead hvalue
  · rw [statement_entry hkey hhead, hvalue]
    rfl

theorem statements_integer {n : Nat} (name : String) (hkey : IsBare key) (hn : n ≠ 0) (fuel : Nat)
    (rest : List Char) :
    statements (fuel + 1) (inSection name [])
        (key.toList ++ ' ' :: '=' :: ' ' :: (Nat.toDigits 10 n ++ '\n' :: rest)) =
      if n < integerLimit then statements fuel (inSection name [(key, .integer n)]) rest
      else .error (.broken .integerTooLong) := by
  have hread := statement_integer name hkey hn (atEnd_break rest)
  obtain ⟨c, more, hfirst, hc⟩ := hkey.exists_cons
  have hblank := not_blank_of_isBareKeyChar hc
  have hbreak := ne_break_of_isBareKeyChar hc
  rw [hfirst, List.cons_append] at hread ⊢
  split_ifs at hread ⊢
  · exact statements_line hblank hbreak fuel hread
  · exact statements_error hblank hbreak fuel hread

/-- The reading of a document whose first entry is an integer goes on after it, or it breaks down
because of too many digits, whatever comes after them. -/
theorem document_integer {n : Nat} (hname : IsBare name) (hkey : IsBare key) (hn : n ≠ 0)
    (rest : String) : ∃ fuel, (normalBreaks rest.toList).length < fuel ∧
      document ("[" ++ name ++ "]\n" ++ key ++ " = " ++ toString n ++ "\n" ++ rest) =
        if n < integerLimit then
          (statements fuel (inSection name [(key, .integer n)])
            (normalBreaks rest.toList)).map (·.root)
        else .error (.broken .integerTooLong) := by
  let entry := key.toList ++ ' ' :: '=' :: ' ' :: (Nat.toDigits 10 n ++ ['\n'])
  have htext : ("[" ++ name ++ "]\n" ++ key ++ " = " ++ toString n ++ "\n" ++ rest).toList =
      ('[' :: (name.toList ++ ']' :: '\n' :: entry)) ++ rest.toList := by
    simp [entry]
  have hreturn : '\r' ∉ '[' :: (name.toList ++ ']' :: '\n' :: entry) := by
    simp [entry, hname.return_not_mem, hkey.return_not_mem, (Writes.integer n).return_not_mem]
  -- Only the rest can have line breaks of two characters.
  obtain ⟨body, hbody⟩ : ∃ body, body = key.toList ++ ' ' :: '=' :: ' ' ::
      (Nat.toDigits 10 n ++ '\n' :: normalBreaks rest.toList) := ⟨_, rfl⟩
  have hnormal : normalBreaks
      ("[" ++ name ++ "]\n" ++ key ++ " = " ++ toString n ++ "\n" ++ rest).toList =
      '[' :: (name.toList ++ ']' :: '\n' :: body) := by
    rw [htext, normalBreaks_append hreturn, hbody]
    simp [entry]
  have hlength :
      (normalBreaks rest.toList).length < (name.toList ++ ']' :: '\n' :: body).length := by
    rw [hbody]
    simp only [List.length_append, List.length_cons]
    omega
  refine ⟨_, hlength, ?_⟩
  rw [document, hnormal]
  show (statements _ _ _).map _ = _
  rw [List.length_cons,
    statements_line (by decide) (by decide) _ (statement_header hname ('\n' :: body))]
  generalize (name.toList ++ ']' :: '\n' :: body).length = fuel
  rw [hbody, statements_integer name hkey hn]
  split_ifs <;> rfl

end

end SlotCalc.Toml
