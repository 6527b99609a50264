import SlotCalc.Proofs.Config.Document
import SlotCalc.Proofs.Config.Loading
import SlotCalc.Proofs.Toml.Entries

namespace SlotCalc.Config

section
variable {c : Config} {entries : Table} {lines : List String}

/-- The entries of settings may be written on lines. -/
theorem exists_lines (hslots : ∀ n, c.maxSlots = some n → 1 ≤ n)
    (hentries : entries.Perm c.entries) : ∃ lines, List.Forall₂ Toml.WritesEntry entries lines := by
  have hwrites : ∀ e ∈ entries, ∃ line, Toml.WritesEntry e line := by
    intro e he
    suffices h : ∃ text, Toml.Writes e.2 text from
      h.elim fun text htext => ⟨_, text, htext, rfl⟩
    cases fits_of_mem_entries hslots e (hentries.mem_iff.1 he) with
    | maxSlots n hn =>
      obtain ⟨k, rfl⟩ := Int.eq_ofNat_of_zero_le (show 0 ≤ n by omega)
      exact ⟨_, .integer k⟩
    | commandsUpdatePrevious b | banner b => exact ⟨_, .boolean b⟩
    | farewell s =>
      obtain ⟨body, hbody⟩ := Toml.exists_quotesAll s.toList
      exact ⟨_, .text s body hbody⟩
  clear hentries
  induction entries with
  | nil => exact ⟨[], .nil⟩
  | cons e entries ih =>
    obtain ⟨he, hmore⟩ := List.forall_mem_cons.1 hwrites
    obtain ⟨line, hline⟩ := he
    obtain ⟨lines, hlines⟩ := ih hmore
    exact ⟨line :: lines, .cons hline hlines⟩

theorem isBare_tableName : Toml.IsBare "memcalc" :=
  ⟨by decide, List.all_eq_true.1 (by decide)⟩

theorem isBare_of_mem_settingKeys {key : String} (h : key ∈ settingKeys) : Toml.IsBare key := by
  have hall : settingKeys.all (fun key => key ≠ "" ∧ key.toList.all Toml.isBareKeyChar) := by
    decide
  simpa [Toml.IsBare] using List.all_eq_true.1 hall key h

theorem maxSlots_of_mem_entries {key : String} {n : Int} (h : (key, .integer n) ∈ c.entries) :
    c.maxSlots = some n := by
  have hvalue := (Table.get?_eq_some_iff (keys_entries_nodup c)).2 h
  rw [get?_entries] at hvalue
  split_ifs at hvalue
  · simpa using hvalue
  all_goals cases hvalue

theorem isPlain_of_mem_entries (hslots : ∀ n, c.maxSlots = some n → 1 ≤ n ∧ n < 10 ^ 4300)
    {e : String × Value} (he : e ∈ c.entries) : Toml.IsPlain e := by
  have hfits := fits_of_mem_entries (fun n hn => (hslots n hn).1) e he
  refine ⟨isBare_of_mem_settingKeys hfits.mem_settingKeys, ?_⟩
  intro n hn
  obtain ⟨key, v⟩ := e
  obtain rfl : v = .integer n := hn
  exact hslots n (maxSlots_of_mem_entries he)

end

/-- Settings that are written as a section, each setting on a line of its own and the lines in any
order, are read back from the file: whatever the farewell is, it can be written in double quotes. -/
theorem load_written (c : Config) (hslots : ∀ n, c.maxSlots = some n → 1 ≤ n ∧ n < 10 ^ 4300)
    (entries : Table) (hentries : entries.Perm c.entries) :
    (∃ lines, List.Forall₂ Toml.WritesEntry entries lines) ∧
    ∀ lines, List.Forall₂ Toml.WritesEntry entries lines →
      ∀ (e : LineEnd) (text : String), e ≠ .carriageReturn →
        e.Writes ("[memcalc]" :: lines) text →
        ∀ (read : Path → Except ReadFailure ByteArray) (path : Path), path.hasNull = false →
          read path = .ok text.toUTF8 → load read path = .ok c := by
  refine ⟨exists_lines (fun n hn => (hslots n hn).1) hentries, ?_⟩
  intro lines hlines e text he htext read path hpath hread
  have hkeys : entries.keys.Nodup :=
    (hentries.map Prod.fst).nodup_iff.2 (keys_entries_nodup c)
  have hdocument : Toml.document text = .ok [("memcalc", .table entries)] := by
    exact Toml.document_section isBare_tableName hlines
      (fun e he => isPlain_of_mem_entries hslots (hentries.mem_iff.1 he)) hkeys he htext
  -- What is read back are just the entries of `c`, in the order in which they were written.
  have hgives : Gives [("memcalc", .table entries)] (.ok c) := by
    apply gives_of_entries (t := entries) (fun n hn => (hslots n hn).1) hkeys rfl
    · exact fun e he => hentries.mem_iff.1 he
    · exact fun e he hnot => absurd (hentries.mem_iff.2 he) hnot
  have hsettings : ofDocument [("memcalc", .table entries)] = .ok c := by
    apply hgives.eq_ofDocument
    rintro t ⟨⟩
    exact hkeys
  exact (Loads.settings text _ c hpath hread hdocument hsettings).load_eq

theorem load_written_four_lines :
    let c : Config := { maxSlots := some 12, banner := false, farewell := "\"#[\\\n\x7f😀" }
    let lines := ["farewell = \"\\\"#[\\\\\\u000A\\u007f😀\"", "banner = false",
      "mutation_updates_previous = false", "max_slots = 12"]
    load (fun _ => .ok (LineEnd.both.join ("[memcalc]" :: lines)).toUTF8) (.ofString "c.toml") =
      .ok c := by
  intro c lines
  have hslots : ∀ n, c.maxSlots = some n → 1 ≤ n ∧ n < 10 ^ 4300 := by
    rintro n ⟨⟩
    exact ⟨by decide, by decide +kernel⟩
  obtain ⟨-, hload⟩ := load_written c hslots c.entries.reverse (List.reverse_perm _)
  have hfarewell : Toml.Writes (.text c.farewell) "\"\\\"#[\\\\\\u000A\\u007f😀\"".toList := by
    have hfeed : Toml.Quotes '\n' ['\\', 'u', '0', '0', '0', 'A'] :=
      .control 0 10 _ _ (by decide) rfl ⟨by decide, .inl rfl⟩ ⟨by decide, .inr rfl⟩
    have hdelete : Toml.Quotes '\x7f' ['\\', 'u', '0', '0', '7', 'f'] :=
      .control 7 15 _ _ (by decide) rfl ⟨by decide, .inl rfl⟩ ⟨by decide, .inl rfl⟩
    have hitself (c : Char) (hescaped : ¬ (c = '"' ∨ c = '\\'))
        (hcontrol : ¬ (c.toNat ≤ 0x1f ∨ c.toNat = 0x7f)) : Toml.Quotes c [c] :=
      .itself hescaped hcontrol
    have hchars : c.farewell.toList = ['"', '#', '[', '\\', '\n', '\x7f', '😀'] := by decide
    have hquotes : Toml.QuotesAll ['"', '#', '[', '\\', '\n', '\x7f', '😀'] _ :=
      .cons (.escaped (.inl rfl)) <| .cons (hitself '#' (by decide) (by decide)) <|
      .cons (hitself '[' (by decide) (by decide)) <| .cons (.escaped (.inr rfl)) <|
      .cons hfeed <| .cons hdelete <| .cons (hitself '😀' (by decide) (by decide)) .nil
    rw [← hchars] at hquotes
    exact .text c.farewell _ hquotes
  have hlines : List.Forall₂ Toml.WritesEntry c.entries.reverse lines :=
    .cons ⟨_, hfarewell, rfl⟩ <| .cons ⟨_, .boolean false, rfl⟩ <|
      .cons ⟨_, .boolean false, rfl⟩ <| .cons ⟨_, .integer 12, rfl⟩ .nil
  exact hload lines hlines .both _ (by decide) (.ended _) _ _ (by decide) rfl

end SlotCalc.Config
