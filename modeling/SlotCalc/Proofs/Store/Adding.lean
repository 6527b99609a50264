import Mathlib.Data.List.Nodup
import SlotCalc.Proofs.Store.Cap

namespace SlotCalc.Store

/-- What adding to a slot comes to: the slot holds the sum, it is new and stands last, or the cap is
reached. All other slots and the cap stay as they are. -/
inductive Adds (s : Store) (name : String) (delta : Float) : Except Full Store → Prop
  | sum (before after : List (String × Float)) (old : Float) (s' : Store)
    (hslots : s.slots = before ++ (name, old) :: after)
    (hslots' : s'.slots = before ++ (name, old + delta) :: after) (hcap : s'.cap = s.cap) :
    Adds s name delta (.ok s')
  | new (s' : Store) (hnew : name ∉ s.names) (hroom : ∀ c, s.cap = some c → (s.size : Int) < c)
    (hslots' : s'.slots = s.slots ++ [(name, delta)]) (hcap : s'.cap = s.cap) :
    Adds s name delta (.ok s')
  | full (c : Int) (hnew : name ∉ s.names) (hcap : s.cap = some c) (hfull : c ≤ s.size) :
    Adds s name delta (.error ⟨name, c⟩)

section
variable {s s' : Store} {name : String} {delta value : Float} {before after : List (String × Float)}

theorem eq_of_slots (hslots : s.slots = s'.slots) (hcap : s.cap = s'.cap) : s = s' := by
  cases s
  cases s'
  subst hslots hcap
  rfl

theorem not_mem_of_slots (h : s.slots = before ++ (name, value) :: after) :
    name ∉ before.map Prod.fst ∧ name ∉ after.map Prod.fst := by
  have hnodup := s.names_nodup
  rw [h, List.map_append, List.map_cons, List.nodup_middle, List.nodup_cons] at hnodup
  simpa using hnodup.1

theorem get_of_mem (h : (name, value) ∈ s.slots) : s.get name = value := by
  obtain ⟨before, after, hslots⟩ := List.append_of_mem h
  have hlookup : s.slots.lookup name = some value := by
    rw [List.lookup_eq_some_iff]
    refine ⟨before, after, hslots, ?_⟩
    intro slot hslot
    rw [bne_iff_ne]
    rintro rfl
    exact (not_mem_of_slots hslots).1 (List.mem_map_of_mem hslot)
  rw [get, get?, hlookup, Option.getD_some]

theorem contains_of_slots (h : s.slots = before ++ (name, value) :: after) :
    s.contains name = true := by
  rw [contains_iff, names, h]
  simp

theorem slots_update (h : s.slots = before ++ (name, value) :: after) :
    (s.update name delta).slots = before ++ (name, value + delta) :: after := by
  obtain ⟨hbefore, hafter⟩ := not_mem_of_slots h
  have hslots : (s.update name delta).slots = s.slots.map (addTo name delta) := rfl
  rw [hslots, h, List.map_append, List.map_cons, map_addTo_of_not_mem hbefore,
    map_addTo_of_not_mem hafter, addTo, if_pos rfl]

theorem adds_accumulate (s : Store) (name : String) (delta : Float) :
    s.Adds name delta (s.accumulate name delta) := by
  by_cases hname : name ∈ s.names
  · obtain ⟨⟨_, old⟩, hslot, rfl⟩ := List.mem_map.1 hname
    obtain ⟨before, after, hslots⟩ := List.append_of_mem hslot
    rw [accumulate_of_contains (contains_of_slots hslots)]
    exact .sum before after old _ hslots (slots_update hslots) rfl
  · have hnew : s.contains name = false := by
      rwa [← Bool.not_eq_true, contains_iff]
    rcases room_or_full s.cap s.size with hroom | ⟨c, hcap, hfull⟩
    · rw [accumulate_of_room hnew hroom]
      exact .new _ hname hroom rfl rfl
    · rw [accumulate_of_full hnew hcap hfull]
      exact .full c hname hcap hfull

/-- The slots and the cap before a call determine what it comes to. -/
theorem Adds.eq_accumulate {result : Except Full Store} (h : s.Adds name delta result) :
    result = s.accumulate name delta := by
  cases h with
  | sum before after old s' hslots hslots' hcap =>
    rw [accumulate_of_contains (contains_of_slots hslots)]
    exact congrArg _ (eq_of_slots (hslots'.trans (slots_update hslots).symm) hcap)
  | new s' hnew hroom hslots' hcap =>
    rw [← contains_iff, Bool.not_eq_true] at hnew
    rw [accumulate_of_room hnew hroom]
    exact congrArg _ (eq_of_slots hslots' hcap)
  | full c hnew hcap hfull =>
    rw [← contains_iff, Bool.not_eq_true] at hnew
    exact (accumulate_of_full hnew hcap hfull).symm

theorem adds_iff {result : Except Full Store} :
    s.Adds name delta result ↔ s.accumulate name delta = result := by
  constructor
  · exact fun h => h.eq_accumulate.symm
  · rintro rfl
    exact adds_accumulate s name delta

theorem Adds.mem_get (h : s.Adds name delta (.ok s')) : (name, s'.get name) ∈ s'.slots := by
  have hslot : ∃ value, (name, value) ∈ s'.slots := by
    cases h with
    | sum before after old _ hslots hslots' hcap => exact ⟨old + delta, by simp [hslots']⟩
    | new _ hnew hroom hslots' hcap => exact ⟨delta, by simp [hslots']⟩
  obtain ⟨value, hvalue⟩ := hslot
  rwa [get_of_mem hvalue]

theorem Adds.mem_names {other : String} (h : s.Adds name delta (.ok s'))
    (hother : other ∈ s'.names) : other = name ∨ other ∈ s.names := by
  cases h with
  | sum before after old _ hslots hslots' hcap =>
    right
    rw [names, hslots', List.map_append, List.map_cons] at hother
    rwa [names, hslots, List.map_append, List.map_cons]
  | new _ hnew hroom hslots' hcap =>
    rw [names, hslots', List.map_append] at hother
    simpa [names, or_comm] using hother

theorem Adds.names_eq (h : s.Adds name delta (.ok s')) :
    s'.names = s.names ++ if name ∈ s.names then [] else [name] := by
  cases h with
  | sum before after old _ hslots hslots' hcap =>
    have hold : name ∈ s.names := by simp [names, hslots]
    rw [if_pos hold, List.append_nil, names, names, hslots, hslots']
    simp
  | new _ hnew hroom hslots' hcap =>
    rw [if_neg hnew, names, hslots', List.map_append]
    rfl

theorem exists_accumulate_eq_error_iff : (∃ e, s.accumulate name delta = .error e) ↔
    name ∉ s.names ∧ s.isFull = true := by
  simp only [← adds_iff]
  constructor
  · rintro ⟨e, he⟩
    cases he with
    | full c hnew hcap hfull => exact ⟨hnew, by simpa [isFull, hcap] using hfull⟩
  · rintro ⟨hnew, hfull⟩
    obtain ⟨c, hcap, hle⟩ := (Option.any_eq_true _ _).1 hfull
    exact ⟨⟨name, c⟩, .full c hnew hcap (by simpa using hle)⟩

end

end SlotCalc.Store
