import SlotCalc.Command
import SlotCalc.Proofs.Config.Loading
import SlotCalc.Proofs.Toml.Causes

namespace SlotCalc.Command

open Config (Loads)

/-- The settings that the options begin with: those of the file, or else the defaults. -/
inductive Supplies (read : Path → Except ReadFailure ByteArray) (o : Options) : Config → Prop
  | default (h : o.config = .absent) : Supplies read o {}
  | file (path : Path) (c : Config) (h : o.config = .given path)
    (hloads : Loads read path (.ok c)) :
    Supplies read o c

/-- The settings `c` are `base` with those of the options in their place. -/
structure Overrides (o : Options) (base c : Config) : Prop where
  given (n : Int) (h : o.maxSlots = .given n) : c.maxSlots = some n
  not_given (h : ∀ n, o.maxSlots ≠ .given n) : c.maxSlots = base.maxSlots
  commandsUpdatePrevious_iff : c.commandsUpdatePrevious = true ↔
    base.commandsUpdatePrevious = true ∨ o.updatePrevious = true
  banner_iff : c.banner = true ↔ base.banner = true ∧ o.quiet = false
  farewell_eq : c.farewell = base.farewell

/-- How a run with accepted options begins. The file comes before the number of slots, and an option
without a value is no error of the options. -/
inductive Begins (read : Path → Except ReadFailure ByteArray) (o : Options) : Start → Prop
  | emptyLevel (h : o.logLevel = .empty) : Begins read o (.broken .emptyLevel)
  | emptyPath (hlevel : o.logLevel ≠ .empty) (h : o.config = .empty) :
    Begins read o (.broken .emptyPath)
  | unfinished (path : Path) (cause : Breakdown) (hlevel : o.logLevel ≠ .empty)
    (h : o.config = .given path) (hloads : Loads read path (.error (.broken cause))) :
    Begins read o (.broken cause)
  | refused (path : Path) (e : Config.LoadError) (hlevel : o.logLevel ≠ .empty)
    (h : o.config = .given path) (hloads : Loads read path (.error (.reported e))) :
    Begins read o (.ended (.early 2 "" (e.message ++ "\n")))
  | emptyNumber (base : Config) (hlevel : o.logLevel ≠ .empty) (hbase : Supplies read o base)
    (h : o.maxSlots = .empty) : Begins read o (.broken .emptyNumber)
  | notPositive (base : Config) (n : Int) (hlevel : o.logLevel ≠ .empty)
    (hbase : Supplies read o base) (h : o.maxSlots = .given n) (hn : n < 1) :
    Begins read o (.ended (.early 2 ""
      ("--max-slots must be positive, got " ++ toString n ++ "\n")))
  | session (base c : Config) (level : Level) (hlevel : threshold o = .ok level)
    (hbase : Supplies read o base) (hnumber : o.maxSlots ≠ .empty)
    (hpositive : ∀ n, o.maxSlots = .given n → 1 ≤ n) (hc : Overrides o base c) :
    Begins read o (.session c level)

/-- Why a run breaks down: an option is given without a value, the path has a null character, or the
document has an integer with too many digits or is nested too deep. -/
inductive Breaks (read : Path → Except ReadFailure ByteArray) (o : Options) : Breakdown → Prop
  | emptyLevel (h : o.logLevel = .empty) : Breaks read o .emptyLevel
  | emptyNumber (h : o.maxSlots = .empty) : Breaks read o .emptyNumber
  | emptyPath (h : o.config = .empty) : Breaks read o .emptyPath
  | nullInPath (path : Path) (h : o.config = .given path) (hnull : path.hasNull = true) :
    Breaks read o .nullInPath
  | document (path : Path) (text : String) (cause : Breakdown) (h : o.config = .given path)
    (hread : read path = .ok text.toUTF8) (hdocument : Toml.document text = .error (.broken cause))
    (hcause : cause = .integerTooLong ∨ cause = .nestingTooDeep) : Breaks read o cause

section
variable {read : Path → Except ReadFailure ByteArray} {o : Options} {base c : Config} {s : Start}
  {path : Path} {e : Failure Config.LoadError}

theorem exists_threshold (h : o.logLevel ≠ .empty) : ∃ level, threshold o = .ok level := by
  unfold threshold
  split
  · exact ⟨_, rfl⟩
  · exact absurd ‹_› h
  · exact ⟨_, rfl⟩

theorem Supplies.fileConfig_eq (h : Supplies read o base) : fileConfig read o = .ok base := by
  cases h with
  | default h => rw [fileConfig, h]
  | file path c h hloads =>
    simp only [fileConfig, h, hloads.load_eq]
    rfl

theorem fileConfig_of_error (h : o.config = .given path) (hloads : Loads read path (.error e)) :
    fileConfig read o = .error (e.map .file) := by
  simp only [fileConfig, h, hloads.load_eq]
  rfl

theorem slotLimit_of_not_positive {n : Int} (h : o.maxSlots = .given n) (hn : n < 1) :
    slotLimit base o = .error (.reported (.maxSlotsNotPositive n)) := by
  simp only [slotLimit, h, if_pos hn]

theorem Overrides.slotLimit_eq (hc : Overrides o base c) (hnumber : o.maxSlots ≠ .empty)
    (hpositive : ∀ n, o.maxSlots = .given n → 1 ≤ n) : slotLimit base o = .ok c.maxSlots := by
  cases h : o.maxSlots with
  | absent =>
    have hkept : c.maxSlots = base.maxSlots := hc.not_given (by simp [h])
    simp only [slotLimit, h, hkept]
  | empty => exact absurd h hnumber
  | given n =>
    have hn : ¬ n < 1 := Int.not_lt.2 (hpositive n h)
    simp only [slotLimit, h, if_neg hn, hc.given n h]

theorem Overrides.eq (hc : Overrides o base c) :
    { maxSlots := c.maxSlots
      commandsUpdatePrevious := base.commandsUpdatePrevious || o.updatePrevious
      banner := base.banner && !o.quiet
      farewell := base.farewell } = c := by
  have hupdate : (base.commandsUpdatePrevious || o.updatePrevious) = c.commandsUpdatePrevious := by
    rw [Bool.eq_iff_iff, hc.commandsUpdatePrevious_iff, Bool.or_eq_true]
  have hbanner : (base.banner && !o.quiet) = c.banner := by
    rw [Bool.eq_iff_iff, hc.banner_iff, Bool.and_eq_true, Bool.not_eq_true']
  rw [hupdate, hbanner, ← hc.farewell_eq]

theorem exists_overrides (o : Options) (base : Config) : ∃ c, Overrides o base c := by
  have hlimit : ∃ limit, (∀ n, o.maxSlots = .given n → limit = some n) ∧
      ((∀ n, o.maxSlots ≠ .given n) → limit = base.maxSlots) := by
    cases h : o.maxSlots with
    | absent | empty => exact ⟨base.maxSlots, by simp, fun _ => rfl⟩
    | given n => exact ⟨some n, by simp, fun hnot => absurd rfl (hnot n)⟩
  obtain ⟨limit, hgiven, hnot⟩ := hlimit
  refine ⟨⟨limit, base.commandsUpdatePrevious || o.updatePrevious, base.banner && !o.quiet,
    base.farewell⟩, hgiven, hnot, ?_, ?_, rfl⟩
  · exact Bool.or_eq_true _ _ ▸ Iff.rfl
  · rw [Bool.and_eq_true, Bool.not_eq_true']

theorem resolve_of_file_error {e : Failure ConfigError} (h : fileConfig read o = .error e) :
    resolve read o = .error e := by
  rw [resolve, h]
  rfl

theorem resolve_of_limit_error {e : Failure ConfigError} (hbase : Supplies read o base)
    (h : slotLimit base o = .error e) : resolve read o = .error e := by
  rw [resolve, hbase.fileConfig_eq]
  show (slotLimit base o >>= _) = _
  rw [h]
  rfl

theorem Overrides.resolve_eq (hc : Overrides o base c) (hbase : Supplies read o base)
    (hnumber : o.maxSlots ≠ .empty) (hpositive : ∀ n, o.maxSlots = .given n → 1 ≤ n) :
    resolve read o = .ok c := by
  rw [resolve, hbase.fileConfig_eq]
  show (slotLimit base o >>= _) = _
  rw [hc.slotLimit_eq hnumber hpositive]
  exact congrArg Except.ok hc.eq

section
variable (hlevel : o.logLevel ≠ .empty)
include hlevel

theorem ofOptions_of_reported {e : ConfigError} (h : resolve read o = .error (.reported e)) :
    Start.ofOptions read o = .ended (.early 2 "" (e.message ++ "\n")) := by
  obtain ⟨level, hlevel⟩ := exists_threshold hlevel
  rw [Start.ofOptions, hlevel, h]
  rfl

theorem ofOptions_of_broken {cause : Breakdown} (h : resolve read o = .error (.broken cause)) :
    Start.ofOptions read o = .broken cause := by
  obtain ⟨level, hlevel⟩ := exists_threshold hlevel
  rw [Start.ofOptions, hlevel, h]
  rfl

end

theorem Overrides.allowsSlot (hc : Overrides o base c) (hbase : Supplies read o base)
    (hpositive : ∀ n, o.maxSlots = .given n → 1 ≤ n) : c.AllowsSlot := by
  intro n hn
  by_cases hgiven : ∃ n, o.maxSlots = .given n
  · obtain ⟨k, hk⟩ := hgiven
    rw [hc.given k hk] at hn
    cases hn
    exact hpositive n hk
  · rw [hc.not_given (not_exists.1 hgiven)] at hn
    cases hbase with
    | default h => cases hn
    | file path base h hloads => exact hloads.allowsSlot n hn

theorem Begins.ofOptions_eq (h : Begins read o s) : Start.ofOptions read o = s := by
  cases h with
  | emptyLevel h =>
    have hthreshold : threshold o = .error (.broken .emptyLevel) := by rw [threshold, h]
    rw [Start.ofOptions, hthreshold]
    rfl
  | emptyPath hlevel h =>
    apply ofOptions_of_broken hlevel
    apply resolve_of_file_error
    rw [fileConfig, h]
  | unfinished path cause hlevel h hloads =>
    exact ofOptions_of_broken hlevel (resolve_of_file_error (fileConfig_of_error h hloads))
  | refused path e hlevel h hloads =>
    exact ofOptions_of_reported hlevel (resolve_of_file_error (fileConfig_of_error h hloads))
  | emptyNumber base hlevel hbase h =>
    apply ofOptions_of_broken hlevel
    apply resolve_of_limit_error hbase
    rw [slotLimit, h]
  | notPositive base n hlevel hbase h hn =>
    exact ofOptions_of_reported hlevel
      (resolve_of_limit_error hbase (slotLimit_of_not_positive h hn))
  | session base c level hlevel hbase hnumber hpositive hc =>
    rw [Start.ofOptions, hlevel, hc.resolve_eq hbase hnumber hpositive]
    rfl

theorem exists_supplies_or_begins (read : Path → Except ReadFailure ByteArray)
    (hlevel : o.logLevel ≠ .empty) :
    (∃ base, Supplies read o base) ∨ ∃ s, Begins read o s := by
  cases h : o.config with
  | absent => exact .inl ⟨{}, .default h⟩
  | empty => exact .inr ⟨_, .emptyPath hlevel h⟩
  | given path =>
    obtain ⟨r, hloads⟩ := Config.exists_loads read path
    cases r with
    | ok c => exact .inl ⟨c, .file path c h hloads⟩
    | error e =>
      cases e with
      | reported e => exact .inr ⟨_, .refused path e hlevel h hloads⟩
      | broken cause => exact .inr ⟨_, .unfinished path cause hlevel h hloads⟩

theorem exists_begins (read : Path → Except ReadFailure ByteArray) (o : Options) :
    ∃ s, Begins read o s := by
  by_cases hempty : o.logLevel = .empty
  · exact ⟨_, .emptyLevel hempty⟩
  · rcases exists_supplies_or_begins read hempty with ⟨base, hbase⟩ | hbegins
    · by_cases hnumber : o.maxSlots = .empty
      · exact ⟨_, .emptyNumber base hempty hbase hnumber⟩
      · by_cases hpositive : ∀ n, o.maxSlots = .given n → 1 ≤ n
        · obtain ⟨level, hlevel⟩ := exists_threshold hempty
          obtain ⟨c, hc⟩ := exists_overrides o base
          exact ⟨_, .session base c level hlevel hbase hnumber hpositive hc⟩
        · simp only [not_forall, Int.not_le] at hpositive
          obtain ⟨n, hn, hlow⟩ := hpositive
          exact ⟨_, .notPositive base n hempty hbase hn hlow⟩
    · exact hbegins

theorem ofOptions_eq_iff_begins : Start.ofOptions read o = s ↔ Begins read o s := by
  constructor
  · rintro rfl
    obtain ⟨s, hs⟩ := exists_begins read o
    rwa [hs.ofOptions_eq]
  · exact Begins.ofOptions_eq

theorem Begins.breaks {cause : Breakdown} (h : Begins read o (.broken cause)) :
    Breaks read o cause := by
  cases h with
  | emptyLevel h => exact .emptyLevel h
  | emptyNumber base hlevel hbase h => exact .emptyNumber h
  | emptyPath hlevel h => exact .emptyPath h
  | unfinished path cause hlevel h hloads =>
    cases hloads with
    | nullInPath hnull => exact .nullInPath path h hnull
    | unfinished text cause hnull hread hdocument =>
      exact .document path text cause h hread hdocument
        (Toml.breaksKnown_document text cause hdocument)

section
variable {arguments : List String}

theorem start_of_options (h : Options.ofArguments arguments = .ok o) :
    start read arguments = .ofOptions read o := by
  rw [start, h]

theorem exists_begins_of_start (h : start read arguments = s) (hs : ∀ r, s ≠ .ended r) :
    ∃ o, Options.ofArguments arguments = .ok o ∧ Begins read o s := by
  unfold start at h
  split at h
  · exact absurd h.symm (hs _)
  · exact absurd h.symm (hs _)
  · exact absurd h.symm (hs _)
  · exact ⟨_, ‹_›, ofOptions_eq_iff_begins.1 h⟩

/-- Settings are resolved before a session starts, and no prompt is shown before that. -/
theorem start_cases (read : Path → Except ReadFailure ByteArray) (arguments : List String) :
    (∃ o config logLevel, Options.ofArguments arguments = .ok o ∧ resolve read o = .ok config ∧
      start read arguments = .session config logLevel) ∨
    (∃ status stdout stderr, start read arguments = .ended (.early status stdout stderr)) ∨
    ∃ cause, start read arguments = .broken cause := by
  unfold start
  split
  · exact .inr (.inl ⟨_, _, _, rfl⟩)
  · exact .inr (.inl ⟨_, _, _, rfl⟩)
  · exact .inr (.inl ⟨_, _, _, rfl⟩)
  · rename_i o hoptions
    obtain ⟨s, hs⟩ := exists_begins read o
    rw [hs.ofOptions_eq]
    cases hs with
    | session base c level hlevel hbase hnumber hpositive hc =>
      exact .inl ⟨o, c, level, hoptions, hc.resolve_eq hbase hnumber hpositive, rfl⟩
    | refused | notPositive => exact .inr (.inl ⟨_, _, _, rfl⟩)
    | emptyLevel | emptyPath | unfinished | emptyNumber => exact .inr (.inr ⟨_, rfl⟩)

theorem resolve_of_start {config : Config} {logLevel : Level}
    (h : start read arguments = .session config logLevel) :
    ∃ o, Options.ofArguments arguments = .ok o ∧ resolve read o = .ok config := by
  obtain ⟨o, hoptions, hbegins⟩ := exists_begins_of_start h (by simp)
  cases hbegins with
  | session base c level hlevel hbase hnumber hpositive hc =>
    exact ⟨o, hoptions, hc.resolve_eq hbase hnumber hpositive⟩

end

end

end SlotCalc.Command
