import Mathlib.Data.List.Nodup
import Mathlib.Tactic.SplitIfs
import SlotCalc.Config

namespace SlotCalc

namespace Table

variable {t t' : Table} {key : String} {v : Value}

theorem get?_cons (e : String × Value) (t : Table) (key : String) :
    get? (e :: t) key = if key = e.1 then some e.2 else t.get? key := by
  obtain ⟨k, v⟩ := e
  rw [get?, List.lookup_cons]
  by_cases h : key = k
  · rw [if_pos h, beq_iff_eq.2 h]
  · rw [if_neg h, beq_eq_false_iff_ne.2 h]
    rfl

theorem get?_eq_none_iff : t.get? key = none ↔ key ∉ t.keys := by
  rw [get?, List.lookup_eq_none_iff, keys, List.mem_map, not_exists]
  constructor
  · rintro h e ⟨he, rfl⟩
    simpa using h e he
  · intro h e he
    rw [bne_iff_ne]
    rintro rfl
    exact h e ⟨he, rfl⟩

theorem get?_eq_some_iff (h : t.keys.Nodup) : t.get? key = some v ↔ (key, v) ∈ t := by
  induction t with
  | nil => simp [get?]
  | cons e t ih =>
    obtain ⟨k, w⟩ := e
    obtain ⟨hnew, hmore⟩ := List.nodup_cons.1 h
    rw [get?_cons, List.mem_cons]
    by_cases hkey : key = k
    · subst hkey
      have hnot : (key, v) ∉ t := fun hmem => hnew (List.mem_map.2 ⟨_, hmem, rfl⟩)
      simp [hnot, eq_comm]
    · rw [if_neg hkey, ih hmore]
      simp [hkey]

theorem get?_perm (h : t.keys.Nodup) (hperm : t.Perm t') (key : String) :
    t'.get? key = t.get? key := by
  have h' : t'.keys.Nodup := (hperm.map Prod.fst).nodup_iff.1 h
  apply Option.ext
  intro v
  rw [get?_eq_some_iff h, get?_eq_some_iff h', hperm.mem_iff]

end Table

namespace Config

def settingKeys : List String := ["max_slots", "mutation_updates_previous", "banner", "farewell"]

/-- The entries that give a setting. -/
inductive Fits : String × Value → Prop
  | maxSlots (n : Int) (h : 1 ≤ n) : Fits ("max_slots", .integer n)
  | commandsUpdatePrevious (b : Bool) : Fits ("mutation_updates_previous", .boolean b)
  | banner (b : Bool) : Fits ("banner", .boolean b)
  | farewell (s : String) : Fits ("farewell", .text s)

/-- What is wrong with the value of a setting. -/
inductive Misfits : String × Value → Problem → Prop
  | notAnInteger (v : Value) (h : ∀ n, v ≠ .integer n) :
    Misfits ("max_slots", v) (.notAnInteger "max_slots")
  | notPositive (n : Int) (h : n < 1) :
    Misfits ("max_slots", .integer n) (.notPositive "max_slots" n)
  | notABoolean (key : String) (hkey : key = "mutation_updates_previous" ∨ key = "banner")
    (v : Value) (h : ∀ b, v ≠ .boolean b) : Misfits (key, v) (.notABoolean key)
  | notAString (v : Value) (h : ∀ s, v ≠ .text s) : Misfits ("farewell", v) (.notAString "farewell")

/-- The settings as a table. No entry stands for an unlimited number of slots. -/
def entries (c : Config) : Table :=
  (c.maxSlots.map fun n => ("max_slots", Value.integer n)).toList ++
    [("mutation_updates_previous", .boolean c.commandsUpdatePrevious),
      ("banner", .boolean c.banner),
      ("farewell", .text c.farewell)]

section
variable {c c' : Config} {e : String × Value} {p : Problem} {t : Table}

theorem get?_entries (c : Config) (key : String) : c.entries.get? key =
    if key = "max_slots" then c.maxSlots.map .integer
    else if key = "mutation_updates_previous" then some (.boolean c.commandsUpdatePrevious)
    else if key = "banner" then some (.boolean c.banner)
    else if key = "farewell" then some (.text c.farewell)
    else none := by
  have hnil : Table.get? [] key = none := rfl
  cases hslots : c.maxSlots with
  | none =>
    simp only [entries, hslots, Option.map_none, Option.toList_none, List.nil_append,
      Table.get?_cons, hnil]
    by_cases hkey : key = "max_slots"
    · subst hkey
      rfl
    · rw [if_neg hkey]
  | some n =>
    simp only [entries, hslots, Option.map_some, Option.toList_some, List.cons_append,
      List.nil_append, Table.get?_cons, hnil]

theorem eq_of_get?_entries (h : ∀ key, c.entries.get? key = c'.entries.get? key) : c = c' := by
  have hslots := h "max_slots"
  have hupdate := h "mutation_updates_previous"
  have hbanner := h "banner"
  have hfarewell := h "farewell"
  rw [get?_entries, get?_entries] at hslots hupdate hbanner hfarewell
  have hinjective : Function.Injective Value.integer := fun a b hab => Value.integer.inj hab
  have hslots : c.maxSlots = c'.maxSlots := Option.map_injective hinjective hslots
  cases c
  cases c'
  simp_all

theorem setEntry_of_fits (h : Fits e) (c : Config) : ∃ c', setEntry c e = .ok c' ∧
    ∀ key, c'.entries.get? key = if key = e.1 then some e.2 else c.entries.get? key := by
  cases h with
  | maxSlots n h =>
    refine ⟨{ c with maxSlots := some n }, ?_, ?_⟩
    · have hn : ¬ n < 1 := Int.not_lt.2 h
      show (if n < 1 then .error _ else .ok n : Except Problem Int).map _ = _
      rw [if_neg hn]
      rfl
    · intro key
      rw [get?_entries, get?_entries]
      split_ifs <;> rfl
  | commandsUpdatePrevious b =>
    refine ⟨{ c with commandsUpdatePrevious := b }, rfl, ?_⟩
    intro key
    rw [get?_entries, get?_entries]
    split_ifs <;> simp_all
  | banner b =>
    refine ⟨{ c with banner := b }, rfl, ?_⟩
    intro key
    rw [get?_entries, get?_entries]
    split_ifs <;> simp_all
  | farewell s =>
    refine ⟨{ c with farewell := s }, rfl, ?_⟩
    intro key
    rw [get?_entries, get?_entries]
    split_ifs <;> simp_all

theorem positive_of_ne (f : Field) {v : Value} (h : ∀ n, v ≠ .integer n) :
    f.positive v = .error (.notAnInteger f.key) := by
  unfold Field.positive
  split
  · exact absurd rfl (h _)
  · rfl

theorem boolean_of_ne (f : Field) {v : Value} (h : ∀ b, v ≠ .boolean b) :
    f.boolean v = .error (.notABoolean f.key) := by
  unfold Field.boolean
  split
  · exact absurd rfl (h _)
  · rfl

theorem text_of_ne (f : Field) {v : Value} (h : ∀ s, v ≠ .text s) :
    f.text v = .error (.notAString f.key) := by
  unfold Field.text
  split
  · exact absurd rfl (h _)
  · rfl

theorem setEntry_of_misfits (h : Misfits e p) (c : Config) : setEntry c e = .error p := by
  cases h with
  | notAnInteger v h =>
    exact congrArg (Except.map _) (positive_of_ne .maxSlots h)
  | notPositive n h =>
    show (if n < 1 then .error _ else .ok n : Except Problem Int).map _ = _
    rw [if_pos h]
    rfl
  | notABoolean key hkey v h =>
    rcases hkey with rfl | rfl
    · exact congrArg (Except.map _) (boolean_of_ne .commandsUpdatePrevious h)
    · exact congrArg (Except.map _) (boolean_of_ne .banner h)
  | notAString v h =>
    exact congrArg (Except.map _) (text_of_ne .farewell h)

theorem fits_or_misfits (h : e.1 ∈ settingKeys) : Fits e ∨ ∃ p, Misfits e p := by
  obtain ⟨key, v⟩ := e
  have hkey : key = "max_slots" ∨ (key = "mutation_updates_previous" ∨ key = "banner") ∨
      key = "farewell" := by
    simpa [settingKeys, or_assoc] using h
  rcases hkey with rfl | hflag | rfl
  · by_cases hv : ∃ n, v = .integer n
    · obtain ⟨n, rfl⟩ := hv
      by_cases hn : n < 1
      · exact .inr ⟨_, .notPositive n hn⟩
      · exact .inl (.maxSlots n (Int.not_lt.1 hn))
    · exact .inr ⟨_, .notAnInteger v (not_exists.1 hv)⟩
  · by_cases hv : ∃ b, v = .boolean b
    · obtain ⟨b, rfl⟩ := hv
      rcases hflag with rfl | rfl
      · exact .inl (.commandsUpdatePrevious b)
      · exact .inl (.banner b)
    · exact .inr ⟨_, .notABoolean key hflag v (not_exists.1 hv)⟩
  · by_cases hv : ∃ s, v = .text s
    · obtain ⟨s, rfl⟩ := hv
      exact .inl (.farewell s)
    · exact .inr ⟨_, .notAString v (not_exists.1 hv)⟩

theorem Fits.mem_settingKeys (h : Fits e) : e.1 ∈ settingKeys := by
  cases h <;> simp [settingKeys]

theorem Fits.one_le (h : Fits e) {n : Int} (hn : e.2 = .integer n) : 1 ≤ n := by
  cases h with
  | maxSlots m h =>
    cases hn
    exact h
  | commandsUpdatePrevious | banner | farewell => cases hn

/-- Entries that fit give their values, and the settings keep their other values. -/
theorem foldlM_of_fits (h : ∀ e ∈ t, Fits e) (hkeys : t.keys.Nodup) (c : Config) :
    ∃ c', t.foldlM setEntry c = .ok c' ∧
      ∀ key, c'.entries.get? key = (t.get? key).or (c.entries.get? key) := by
  induction t generalizing c with
  | nil => exact ⟨c, rfl, fun key => rfl⟩
  | cons e t ih =>
    obtain ⟨he, ht⟩ := List.forall_mem_cons.1 h
    obtain ⟨hnew, hmore⟩ := List.nodup_cons.1 hkeys
    obtain ⟨first, hfirst, hget⟩ := setEntry_of_fits he c
    obtain ⟨c', hc', hlater⟩ := ih ht hmore first
    refine ⟨c', ?_, ?_⟩
    · rw [List.foldlM_cons, hfirst]
      exact hc'
    · intro key
      rw [hlater, hget, Table.get?_cons]
      -- The later entries do not have the key of this one.
      by_cases hkey : key = e.1
      · rw [if_pos hkey, if_pos hkey, hkey, Table.get?_eq_none_iff.2 hnew]
        rfl
      · rw [if_neg hkey, if_neg hkey]

/-- The first value that does not fit is reported. -/
theorem foldlM_of_misfits {before after : Table} (hbefore : ∀ e ∈ before, Fits e)
    (hkeys : before.keys.Nodup) (he : Misfits e p) (c : Config) :
    (before ++ e :: after).foldlM setEntry c = .error p := by
  obtain ⟨c', hc', -⟩ := foldlM_of_fits hbefore hkeys c
  rw [List.foldlM_append, hc']
  show (e :: after).foldlM setEntry c' = _
  rw [List.foldlM_cons, setEntry_of_misfits he]
  rfl

theorem fit_or_exists_misfit (h : ∀ key ∈ t.keys, key ∈ settingKeys) : (∀ e ∈ t, Fits e) ∨
    ∃ before e after p, t = before ++ e :: after ∧ (∀ e ∈ before, Fits e) ∧ Misfits e p := by
  induction t with
  | nil => exact .inl (List.forall_mem_nil _)
  | cons e t ih =>
    obtain ⟨hkey, hmore⟩ := List.forall_mem_cons.1 h
    rcases fits_or_misfits hkey with he | ⟨p, hp⟩
    · rcases ih hmore with ht | ⟨before, e', after, p, rfl, hbefore, hp⟩
      · exact .inl (List.forall_mem_cons.2 ⟨he, ht⟩)
      · exact .inr ⟨e :: before, e', after, p, rfl, List.forall_mem_cons.2 ⟨he, hbefore⟩, hp⟩
    · exact .inr ⟨[], e, t, p, rfl, List.forall_mem_nil _, hp⟩

theorem isNone_ofKey?_iff (key : String) :
    (Field.ofKey? key).isNone = true ↔ key ∉ settingKeys := by
  have hkeys : settingKeys = Field.all.map Field.key := rfl
  rw [Field.ofKey?, Option.isNone_iff_eq_none, List.find?_eq_none, hkeys, List.mem_map]
  simp

theorem mem_unknownKeys {key : String} :
    key ∈ unknownKeys t ↔ key ∈ t.keys ∧ key ∉ settingKeys := by
  rw [unknownKeys, List.mem_mergeSort, List.mem_filter, isNone_ofKey?_iff]

theorem unknownKeys_eq_nil_iff :
    unknownKeys t = [] ↔ ∀ key ∈ t.keys, key ∈ settingKeys := by
  rw [List.eq_nil_iff_forall_not_mem]
  simp only [mem_unknownKeys, not_and, Decidable.not_not]

/-- Distinct keys that name no setting are listed in strictly increasing order. -/
theorem pairwise_unknownKeys (h : t.keys.Nodup) : (unknownKeys t).Pairwise (· < ·) := by
  have hsorted : (unknownKeys t).Pairwise (· ≤ ·) := by
    have hmerge := @List.pairwise_mergeSort String (fun a b => decide (¬ b < a))
      (fun a b c hab hbc => decide_eq_true
        (String.le_trans (of_decide_eq_true hab) (of_decide_eq_true hbc)))
      (fun a b => Bool.or_eq_true_iff.2
        ((String.le_total a b).imp decide_eq_true decide_eq_true))
      (t.keys.filter fun key => (Field.ofKey? key).isNone)
    exact hmerge.imp of_decide_eq_true
  have hnodup : (unknownKeys t).Nodup := by
    rw [unknownKeys, (List.mergeSort_perm _ _).nodup_iff]
    exact h.filter _
  apply (hsorted.and hnodup).imp
  intro a b hab
  by_contra hlt
  exact hab.2 (String.le_antisymm hab.1 (String.not_lt.1 hlt))

end

end Config

end SlotCalc
