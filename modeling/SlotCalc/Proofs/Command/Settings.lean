import SlotCalc.Proofs.Command.Ending
import SlotCalc.Proofs.Config.Written
import SlotCalc.Proofs.Session.Room

namespace SlotCalc.Command

open Session (BeginsWith beginsWith_of_all command?_eq_none_iff results)
open Config (Loads)

section
variable {arguments : List String} {files : Files} {o : Options}

theorem run_of_ended {r : Run} (h : Options.ofArguments arguments = .ok o)
    (hs : Begins files.read o (.ended r)) (input : Input) : run arguments files input = .ok r := by
  rw [run, start_of_options h, hs.ofOptions_eq]

theorem start_of_run_error {input : Input} {cause : Breakdown}
    (h : run arguments files input = .error cause) :
    start files.read arguments = .broken cause := by
  unfold run at h
  split at h
  · cases h
  · cases h
    assumption
  · cases h

end

/-- A session has the settings of the file with those of the options in their place. As its number
of slots is positive if it is limited, the first command finds room, and there are never more slots.
If the options are in error, or the file is, whatever number of slots the options give, or that
number is not positive, the run ends with status 2 and looks at no input. It breaks down only if an
option is given without a value, the path has a null character, or the document has an integer with
too many digits or is nested too deep. -/
theorem run_settings (arguments : List String) (files : Files) :
    (∀ e, Options.ofArguments arguments = .error (.problem e) →
      ∀ input, run arguments files input = .ok (.early 2 "" (Usage.complaint e.message))) ∧
    (∀ o, Options.ofArguments arguments = .ok o → o.logLevel ≠ .empty →
      (∀ path e, o.config = .given path → Loads files.read path (.error (.reported e)) →
        ∀ input, run arguments files input = .ok (.early 2 "" (e.message ++ "\n"))) ∧
      ∀ base, Supplies files.read o base →
        (∀ n, o.maxSlots = .given n → n < 1 → ∀ input, run arguments files input =
          .ok (.early 2 "" ("--max-slots must be positive, got " ++ toString n ++ "\n"))) ∧
        (o.maxSlots ≠ .empty → (∀ n, o.maxSlots = .given n → 1 ≤ n) →
          ∃ c level, start files.read arguments = .session c level)) ∧
    (∀ input cause, run arguments files input = .error cause →
      ∃ o, Options.ofArguments arguments = .ok o ∧ Breaks files.read o cause) ∧
    ∀ c level, start files.read arguments = .session c level →
      ∃ o base, Options.ofArguments arguments = .ok o ∧ Supplies files.read o base ∧
        Overrides o base c ∧ (∀ n, c.maxSlots = some n → 1 ≤ n) ∧
        ∀ input, run arguments files input = .ok (runSession c level input) ∧
          Session.HasRoom c input.source.lines := by
  refine ⟨?_, ?_, ?_, ?_⟩
  · intro e he input
    rw [run, start, he]
  · intro o ho hlevel
    refine ⟨?_, ?_⟩
    · intro path e hpath hloads
      exact run_of_ended ho (.refused path e hlevel hpath hloads)
    · intro base hbase
      refine ⟨?_, ?_⟩
      · intro n hn hlow
        exact run_of_ended ho (.notPositive base n hlevel hbase hn hlow)
      · intro hnumber hpositive
        obtain ⟨level, hlevel⟩ := exists_threshold hlevel
        obtain ⟨c, hc⟩ := exists_overrides o base
        refine ⟨c, level, ?_⟩
        rw [start_of_options ho]
        exact (Begins.session base c level hlevel hbase hnumber hpositive hc).ofOptions_eq
  -- A run with an error among its options does not break down.
  · intro input cause hrun
    obtain ⟨o, ho, hbegins⟩ := exists_begins_of_start (start_of_run_error hrun) (by simp)
    exact ⟨o, ho, hbegins.breaks⟩
  · intro c level hstart
    obtain ⟨o, ho, hbegins⟩ := exists_begins_of_start hstart (by simp)
    cases hbegins with
    | session base c level hlevel hbase hnumber hpositive hc =>
      have hallows := hc.allowsSlot hbase hpositive
      exact ⟨o, base, ho, hbase, hc, hallows,
        fun input => ⟨run_of_session hstart input, Session.hasRoom hallows input.source.lines⟩⟩

theorem run_settings_one_slot :
    (∀ input, run ["--config", "c.toml", "--max-slots", "0"] .empty input =
      .ok (.early 2 "" "Missing config file: c.toml\n")) ∧
    ∃ c level, start Files.empty.read ["--max-slots", "1", "-q"] = .session c level ∧
      c = { maxSlots := some 1, banner := false } ∧
      ∃ value, (results c ["1 + 1", "memx+"])[1]? = some (.ok (.stored "x" value)) := by
  constructor
  · obtain ⟨-, hrefused, -⟩ := run_settings ["--config", "c.toml", "--max-slots", "0"] .empty
    have hoptions : Options.ofArguments ["--config", "c.toml", "--max-slots", "0"] =
        .ok { config := .given (.ofString "c.toml"), maxSlots := .given 0 } := by rfl
    obtain ⟨hfile, -⟩ := hrefused _ hoptions (by decide)
    exact hfile _ _ rfl (.missing (by decide) (by rfl))
  · obtain ⟨-, hsettled, -, hsession⟩ := run_settings ["--max-slots", "1", "-q"] .empty
    have hoptions : Options.ofArguments ["--max-slots", "1", "-q"] =
        .ok { maxSlots := .given 1, quiet := true } := by rfl
    obtain ⟨-, hbase⟩ := hsettled _ hoptions (by decide)
    obtain ⟨-, hstarts⟩ := hbase {} (.default rfl)
    obtain ⟨c, level, hstart⟩ := hstarts (by decide) (by rintro n ⟨⟩; decide)
    obtain ⟨o, base, ho, hsupplies, hc, -, hrun⟩ := hsession c level hstart
    obtain rfl := Except.ok.inj (hoptions.symm.trans ho)
    obtain rfl : base = {} := by
      cases hsupplies with
      | default => rfl
      | file path c h => cases h
    have hsettings : c = { maxSlots := some 1, banner := false } := hc.eq.symm.trans (by
      rw [hc.given 1 rfl]
      rfl)
    obtain ⟨-, hroom⟩ := hrun ⟨.terminal ["1 + 1", "memx+"], .endOfInput⟩
    have hcommand : BeginsWith .plus "x" "memx+" := beginsWith_of_all [] [] (by decide) rfl rfl rfl
    have hfirst : ∀ line ∈ ["1 + 1"], ∀ sign name, ¬ BeginsWith sign name line :=
      List.forall_mem_singleton.2 (command?_eq_none_iff.1 (by decide +kernel))
    obtain ⟨value, hvalue, -⟩ := hroom.first_command 1 "memx+" "x" .plus rfl hcommand hfirst
    exact ⟨c, level, hstart, hsettings, value, hvalue⟩

/-- A file that begins with a limit and goes on with no TOML. -/
def invalidFile (n : Nat) : String := "[memcalc]\nmax_slots = " ++ toString n ++ "\n" ++ "=\n"

theorem document_invalidFile {n : Nat} (hn : n ≠ 0) : Toml.document (invalidFile n) =
    if n < Toml.integerLimit then .error (.reported {}) else .error (.broken .integerTooLong) := by
  have hkey : Toml.IsBare "max_slots" := Config.isBare_of_mem_settingKeys (by decide)
  obtain ⟨fuel, hfuel, hdocument⟩ := Toml.document_integer Config.isBare_tableName hkey hn "=\n"
  obtain ⟨fuel, rfl⟩ := Nat.exists_eq_add_one_of_ne_zero (Nat.ne_zero_of_lt hfuel)
  have hopen : "[" ++ "memcalc" ++ "]\n" ++ "max_slots" ++ " = " = "[memcalc]\nmax_slots = " := by
    decide
  have hend : Toml.statements (fuel + 1) (Toml.inSection "memcalc" [("max_slots", .integer n)])
      (Toml.normalBreaks "=\n".toList) = .error (.reported {}) :=
    Toml.statements_error (by decide) (by decide) fuel rfl
  rw [hopen, hend] at hdocument
  exact hdocument

theorem read_ofContents (content : ByteArray) :
    (Files.ofContents [("c.toml", content)]).read (.ofString "c.toml") = .ok content := by
  have hpath : Path.ofString "c.toml" = ⟨"", ["c.toml"]⟩ := by decide
  have hfiles : Files.ofContents [("c.toml", content)] =
      Files.add .empty (.ofString "c.toml") content := rfl
  rw [hfiles, hpath, Files.read, if_neg (by decide)]
  rfl

theorem run_invalidFile {n : Nat} (hn : n ≠ 0) (input : Input) :
    run ["--config", "c.toml"] (.ofContents [("c.toml", (invalidFile n).toUTF8)]) input =
      if n < Toml.integerLimit then .ok (.early 2 "" "Invalid TOML in c.toml\n")
      else .error .integerTooLong := by
  have hoptions : Options.ofArguments ["--config", "c.toml"] =
      .ok { config := .given (.ofString "c.toml") } := by rfl
  have hread := read_ofContents (invalidFile n).toUTF8
  have hdocument := document_invalidFile hn
  split_ifs at hdocument ⊢ with hlimit
  · have hbegins : Begins (Files.ofContents [("c.toml", (invalidFile n).toUTF8)]).read
        { config := .given (.ofString "c.toml") } _ :=
      .refused _ _ (by decide) rfl (.notToml _ _ (by decide) hread hdocument)
    exact run_of_ended hoptions hbegins input
  · have hbegins : Begins (Files.ofContents [("c.toml", (invalidFile n).toUTF8)]).read
        { config := .given (.ofString "c.toml") } _ :=
      .unfinished _ _ (by decide) rfl (.unfinished _ _ (by decide) hread hdocument)
    rw [run, start_of_options hoptions, hbegins.ofOptions_eq]

/-- A file that is no TOML is reported if its integers have up to 4300 digits, but with one more
digit the run breaks down before it gets to what is wrong. -/
theorem run_invalidFile_long_integer :
    let ran (n : Nat) := run ["--config", "c.toml"]
      (.ofContents [("c.toml", (invalidFile n).toUTF8)]) ⟨.pipe "1\n", .endOfInput⟩
    ran (10 ^ 4300 - 1) = .ok (.early 2 "" "Invalid TOML in c.toml\n") ∧
      ran (10 ^ 4300) = .error .integerTooLong := by
  intro ran
  have hlarge : 1 < Toml.integerLimit := by decide +kernel
  rw [← Toml.integerLimit_eq]
  constructor
  · have hrun := run_invalidFile (n := Toml.integerLimit - 1) (by omega) ⟨.pipe "1\n", .endOfInput⟩
    rwa [if_pos (by omega)] at hrun
  · have hrun := run_invalidFile (n := Toml.integerLimit) (by omega) ⟨.pipe "1\n", .endOfInput⟩
    rwa [if_neg (by omega)] at hrun

end SlotCalc.Command
