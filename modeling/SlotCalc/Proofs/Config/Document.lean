import SlotCalc.Proofs.Config.Table

namespace SlotCalc.Config

structure DistinctKeys (document : Table) : Prop where
  outer : document.keys.Nodup
  inner (t : Table) : document.get? "memcalc" = some (.table t) → t.keys.Nodup

/-- What a document gives. If keys are unknown, all of them are reported, whatever the values are,
and else the first value that does not fit. -/
inductive Gives (document : Table) : Except Problem Config → Prop
  | default (h : document.get? "memcalc" = none) : Gives document (.ok {})
  | settings (t : Table) (c : Config) (h : document.get? "memcalc" = some (.table t))
    (hfits : ∀ e ∈ t, Fits e)
    (hvalues : ∀ key, c.entries.get? key = (t.get? key).or (({} : Config).entries.get? key)) :
    Gives document (.ok c)
  | notATable (v : Value) (h : document.get? "memcalc" = some v) (hv : ∀ t, v ≠ .table t) :
    Gives document (.error .notATable)
  | unknownKeys (t : Table) (unknown : List String)
    (h : document.get? "memcalc" = some (.table t)) (hne : unknown ≠ [])
    (hsorted : unknown.Pairwise (· < ·))
    (hmem : ∀ key, key ∈ unknown ↔ key ∈ t.keys ∧ key ∉ settingKeys) :
    Gives document (.error (.unknownKeys unknown))
  | misfit (before : Table) (e : String × Value) (after : Table) (p : Problem)
    (h : document.get? "memcalc" = some (.table (before ++ e :: after)))
    (hknown : ∀ key ∈ Table.keys (before ++ e :: after), key ∈ settingKeys)
    (hbefore : ∀ e ∈ before, Fits e) (he : Misfits e p) : Gives document (.error p)

section
variable {document document' t t' : Table} {c : Config} {r : Except Problem Config}

theorem ofDocument_of_table (h : document.get? "memcalc" = some (.table t)) :
    ofDocument document = ofTable t := by
  rw [ofDocument, tableName, h]

theorem ofDocument_of_not_table {v : Value} (h : document.get? "memcalc" = some v)
    (hv : ∀ t, v ≠ .table t) : ofDocument document = .error .notATable := by
  rw [ofDocument, tableName, h]
  split
  · rename_i hnone
    cases hnone
  · rename_i t htable
    exact absurd (Option.some.inj htable) (hv t)
  · rfl

theorem ofTable_of_fits (hkeys : t.keys.Nodup) (h : ∀ e ∈ t, Fits e) :
    ∃ c, ofTable t = .ok c ∧
      ∀ key, c.entries.get? key = (t.get? key).or (({} : Config).entries.get? key) := by
  have hknown : unknownKeys t = [] :=
    unknownKeys_eq_nil_iff.2 (List.forall_mem_map.2 fun e he => (h e he).mem_settingKeys)
  rw [ofTable, if_pos hknown]
  exact foldlM_of_fits h hkeys {}

/-- A strictly increasing list is told from its members. -/
theorem eq_unknownKeys {unknown : List String} (hkeys : t.keys.Nodup)
    (hsorted : unknown.Pairwise (· < ·))
    (hmem : ∀ key, key ∈ unknown ↔ key ∈ t.keys ∧ key ∉ settingKeys) :
    unknown = unknownKeys t := by
  have hsorted' := pairwise_unknownKeys hkeys
  have hne {a b : String} (h : a < b) : a ≠ b := fun heq => String.lt_irrefl b (heq ▸ h)
  have hperm : unknown.Perm (unknownKeys t) := by
    apply (List.perm_ext_iff_of_nodup (hsorted.imp hne) (hsorted'.imp hne)).2
    intro key
    rw [hmem, mem_unknownKeys]
  apply hperm.eq_of_pairwise _ hsorted hsorted'
  intro a b _ _ hab hba
  exact absurd hba (String.lt_asymm hab)

section
variable (hkeys : ∀ t : Table, document.get? "memcalc" = some (.table t) → t.keys.Nodup)
include hkeys

theorem Gives.eq_ofDocument (h : Gives document r) : ofDocument document = r := by
  cases h with
  | default h => rw [ofDocument, tableName, h]
  | settings t c h hfits hvalues =>
    obtain ⟨c', hc', hvalues'⟩ := ofTable_of_fits (hkeys t h) hfits
    have hc : c' = c := eq_of_get?_entries fun key => (hvalues' key).trans (hvalues key).symm
    rw [ofDocument_of_table h, hc', hc]
  | notATable v h hv => exact ofDocument_of_not_table h hv
  | unknownKeys t unknown h hne hsorted hmem =>
    have hunknown := eq_unknownKeys (hkeys t h) hsorted hmem
    rw [hunknown] at hne ⊢
    rw [ofDocument_of_table h, ofTable, if_neg hne]
  | misfit before e after p h hknown hbefore he =>
    have hnodup := hkeys _ h
    rw [Table.keys, List.map_append] at hnodup
    rw [ofDocument_of_table h, ofTable, if_pos (unknownKeys_eq_nil_iff.2 hknown)]
    exact foldlM_of_misfits hbefore hnodup.of_append_left he {}

theorem gives_ofDocument : Gives document (ofDocument document) := by
  -- Whichever condition holds, what it gives is what the document gives.
  have hgives (r : Except Problem Config) (h : Gives document r) :
      Gives document (ofDocument document) := (h.eq_ofDocument hkeys).symm ▸ h
  cases hdocument : document.get? "memcalc" with
  | none => exact hgives _ (.default hdocument)
  | some v =>
    by_cases hv : ∃ t, v = .table t
    · obtain ⟨t, rfl⟩ := hv
      by_cases hknown : ∀ key ∈ Table.keys t, key ∈ settingKeys
      · rcases fit_or_exists_misfit hknown with hfits | ⟨before, e, after, p, rfl, hbefore, he⟩
        · obtain ⟨c, -, hvalues⟩ := ofTable_of_fits (hkeys t hdocument) hfits
          exact hgives _ (.settings t c hdocument hfits hvalues)
        · exact hgives _ (.misfit before e after p hdocument hknown hbefore he)
      · have hne : unknownKeys t ≠ [] := fun hnil => hknown (unknownKeys_eq_nil_iff.1 hnil)
        exact hgives _ (.unknownKeys t _ hdocument hne
          (pairwise_unknownKeys (hkeys t hdocument)) fun key => mem_unknownKeys)
    · exact hgives _ (.notATable v hdocument (not_exists.1 hv))

theorem ofDocument_eq_iff_gives : ofDocument document = r ↔ Gives document r :=
  ⟨fun h => h ▸ gives_ofDocument hkeys, fun h => h.eq_ofDocument hkeys⟩

theorem exists_ofDocument_eq_ok_iff : (∃ c, ofDocument document = .ok c) ↔
    ∀ v, document.get? "memcalc" = some v → ∃ t, v = .table t ∧ ∀ e ∈ t, Fits e := by
  constructor
  · rintro ⟨c, hc⟩ v hv
    cases (ofDocument_eq_iff_gives hkeys).1 hc with
    | default h =>
      rw [h] at hv
      cases hv
    | settings t c h hfits hvalues =>
      rw [h] at hv
      exact ⟨t, (Option.some.inj hv).symm, hfits⟩
  · intro h
    cases hdocument : document.get? "memcalc" with
    | none => exact ⟨{}, (ofDocument_eq_iff_gives hkeys).2 (.default hdocument)⟩
    | some v =>
      obtain ⟨t, rfl, hfits⟩ := h v hdocument
      obtain ⟨c, hc, -⟩ := ofTable_of_fits (hkeys t hdocument) hfits
      exact ⟨c, (ofDocument_of_table hdocument).trans hc⟩

theorem Gives.maxSlots_pos (h : Gives document (.ok c)) {n : Int} (hn : c.maxSlots = some n) :
    1 ≤ n := by
  cases h with
  | default h => cases hn
  | settings t c h hfits hvalues =>
    have hvalue := hvalues "max_slots"
    rw [get?_entries, get?_entries, if_pos rfl, if_pos rfl, hn] at hvalue
    have hmem : ("max_slots", Value.integer n) ∈ t := by
      rw [← Table.get?_eq_some_iff (hkeys t h)]
      simpa using hvalue.symm
    exact (hfits _ hmem).one_le rfl

end

/-- Entries in another order give the same settings. -/
theorem Gives.perm (h : Gives document (.ok c)) (ht : document.get? "memcalc" = some (.table t))
    (ht' : document'.get? "memcalc" = some (.table t')) (hkeys : t.keys.Nodup)
    (hperm : t.Perm t') : Gives document' (.ok c) := by
  cases h with
  | default h =>
    rw [ht] at h
    cases h
  | settings s c h hfits hvalues =>
    rw [ht] at h
    cases h
    apply Gives.settings t' c ht'
    · exact fun e he => hfits e (hperm.mem_iff.2 he)
    · intro key
      rw [hvalues, Table.get?_perm hkeys hperm]

theorem keys_entries_nodup (c : Config) : c.entries.keys.Nodup := by
  unfold entries
  cases c.maxSlots <;> simp [Table.keys]

theorem fits_of_mem_entries (hslots : ∀ n, c.maxSlots = some n → 1 ≤ n) :
    ∀ e ∈ c.entries, Fits e := by
  have hflags : ∀ e ∈ [("mutation_updates_previous", Value.boolean c.commandsUpdatePrevious),
      ("banner", .boolean c.banner), ("farewell", .text c.farewell)], Fits e := by
    simp only [List.forall_mem_cons]
    exact ⟨.commandsUpdatePrevious _, .banner _, .farewell _, List.forall_mem_nil _⟩
  unfold entries
  cases hmax : c.maxSlots with
  | none => exact hflags
  | some n => exact List.forall_mem_cons.2 ⟨.maxSlots n (hslots n hmax), hflags⟩

theorem get?_default_eq_none {key : String} (h : c.entries.get? key = none) :
    ({} : Config).entries.get? key = none := by
  rw [get?_entries] at h ⊢
  split_ifs at h ⊢
  all_goals rfl

theorem gives_of_entries (hslots : ∀ n, c.maxSlots = some n → 1 ≤ n) (hkeys : t.keys.Nodup)
    (ht : document.get? "memcalc" = some (.table t)) (hmem : ∀ e ∈ t, e ∈ c.entries)
    (hleft : ∀ e ∈ c.entries, e ∉ t → e ∈ ({} : Config).entries) : Gives document (.ok c) := by
  apply Gives.settings t c ht
  · exact fun e he => fits_of_mem_entries hslots e (hmem e he)
  · intro key
    cases hkey : t.get? key with
    | some v =>
      rw [Table.get?_eq_some_iff hkeys] at hkey
      exact (Table.get?_eq_some_iff (keys_entries_nodup c)).2 (hmem _ hkey)
    | none =>
      cases hvalue : c.entries.get? key with
      | none => exact (get?_default_eq_none hvalue).symm
      | some v =>
        rw [Table.get?_eq_some_iff (keys_entries_nodup c)] at hvalue
        have hnot : (key, v) ∉ t := by
          intro hentry
          rw [(Table.get?_eq_some_iff hkeys).2 hentry] at hkey
          cases hkey
        exact ((Table.get?_eq_some_iff (keys_entries_nodup {})).2 (hleft _ hvalue hnot)).symm

end

/-- A document gives settings if it has no table of settings or one whose entries all fit: then each
setting has the value of its entry, or else its default. If `memcalc` is no table, this is reported,
and else the unknown keys, which come before all wrong values, or the first wrong value. So neither
the order of the entries nor the rest of the document has a part in the settings, a number of slots
is positive, and each table of settings gives these settings, whether defaults are left out or not.
-/
theorem ofDocument_gives_settings (document : Table) (hkeys : DistinctKeys document) :
    ((∃ c, ofDocument document = .ok c) ↔
      ∀ v, document.get? "memcalc" = some v → ∃ t, v = .table t ∧ ∀ e ∈ t, Fits e) ∧
    (∀ r, ofDocument document = r ↔ Gives document r) ∧
    (∀ document' : Table, document'.get? "memcalc" = document.get? "memcalc" →
      ofDocument document' = ofDocument document) ∧
    (∀ document' : Table, document.Perm document' →
      ofDocument document' = ofDocument document) ∧
    (∀ document' t t' : Table, document.get? "memcalc" = some (.table t) →
      document'.get? "memcalc" = some (.table t') → t.Perm t' →
      ∀ c, ofDocument document' = .ok c ↔ ofDocument document = .ok c) ∧
    (∀ c, ofDocument document = .ok c → ∀ n, c.maxSlots = some n → 1 ≤ n) ∧
    ∀ (c : Config) (t : Table), (∀ n, c.maxSlots = some n → 1 ≤ n) →
      document.get? "memcalc" = some (.table t) → (∀ e ∈ t, e ∈ c.entries) →
      (∀ e ∈ c.entries, e ∉ t → e ∈ ({} : Config).entries) → ofDocument document = .ok c := by
  have hgives {r : Except Problem Config} := ofDocument_eq_iff_gives (r := r) hkeys.inner
  have hrest (document' : Table) (h : document'.get? "memcalc" = document.get? "memcalc") :
      ofDocument document' = ofDocument document := by
    rw [ofDocument, ofDocument, tableName, h]
  refine ⟨exists_ofDocument_eq_ok_iff hkeys.inner, fun r => hgives, hrest, ?_, ?_, ?_, ?_⟩
  · intro document' hperm
    exact hrest document' (Table.get?_perm hkeys.outer hperm "memcalc")
  · intro document' t t' ht ht' hperm c
    have hnodup := hkeys.inner t ht
    have hnodup' : t'.keys.Nodup := (hperm.map Prod.fst).nodup_iff.1 hnodup
    have hinner (s : Table) (hs : document'.get? "memcalc" = some (.table s)) : s.keys.Nodup := by
      rw [ht'] at hs
      cases hs
      exact hnodup'
    rw [hgives, ofDocument_eq_iff_gives hinner]
    exact ⟨fun h => h.perm ht' ht hnodup' hperm.symm, fun h => h.perm ht ht' hnodup hperm⟩
  · intro c hc n hn
    exact (hgives.1 hc).maxSlots_pos hkeys.inner hn
  · intro c t hslots ht hmem hleft
    exact hgives.2 (gives_of_entries hslots (hkeys.inner t ht) ht hmem hleft)

theorem ofDocument_gives_settings_two_fields :
    let c : Config := { maxSlots := some 3, farewell := "ciao" }
    let slots := ("max_slots", Value.integer 3)
    let farewell := ("farewell", Value.text "ciao")
    let document : Table := [("tool", .null), ("memcalc", .table [farewell, slots])]
    ofDocument document = .ok c ∧ ofDocument document.reverse = .ok c ∧
      ofDocument [("memcalc", .table [slots, farewell])] = .ok c ∧
      ofDocument [("memcalc", .table [("banner", .integer 1), ("slots", .null), ("Slots", .null)])] =
        .error (.unknownKeys ["Slots", "slots"]) := by
  intro c slots farewell document
  have hkeys : DistinctKeys document := by
    refine ⟨by decide, fun t ht => ?_⟩
    have ht : some (Value.table [farewell, slots]) = some (.table t) := ht
    cases ht
    decide
  obtain ⟨-, -, -, hperm, hinner, -, hentries⟩ := ofDocument_gives_settings document hkeys
  have hdocument : ofDocument document = .ok c := by
    apply hentries c [farewell, slots] _ rfl
    · simp [entries, c, slots, farewell]
    · simp [entries, c, slots, farewell]
    · intro n hn
      cases hn
      decide
  have hunknown : DistinctKeys
      [("memcalc", .table [("banner", .integer 1), ("slots", .null), ("Slots", .null)])] := by
    refine ⟨by decide, fun t ht => ?_⟩
    have ht : some (Value.table [("banner", .integer 1), ("slots", .null), ("Slots", .null)]) =
      some (.table t) := ht
    cases ht
    decide
  obtain ⟨-, hgives, -⟩ := ofDocument_gives_settings _ hunknown
  refine ⟨hdocument, ?_, ?_, ?_⟩
  · rw [hperm _ (List.reverse_perm document).symm, hdocument]
  · exact (hinner _ _ _ rfl rfl (.swap slots farewell []) c).2 hdocument
  · apply (hgives _).2
    apply Gives.unknownKeys _ _ rfl (by decide) (by decide)
    intro key
    constructor
    · intro hkey
      have hkey : key = "Slots" ∨ key = "slots" := by simpa using hkey
      rcases hkey with rfl | rfl <;> decide
    · rintro ⟨hkey, hnot⟩
      have hkey : key = "banner" ∨ key = "slots" ∨ key = "Slots" := by
        simpa [Table.keys] using hkey
      rcases hkey with rfl | rfl | rfl
      · exact absurd (by decide) hnot
      · decide
      · decide

end SlotCalc.Config
