import Mathlib.Data.List.Induction
import SlotCalc.Store

namespace SlotCalc.Store

/-- The first members of a list, as many as a cap allows; a cap below zero allows none. -/
def upTo (cap : Option Int) (xs : List α) : List α :=
  match cap with
  | none => xs
  | some cap => xs.take cap.toNat

/-- The distinct names of some calls in the order in which they first appear. -/
def calledNames (calls : List (String × Float)) : List String := (calls.map Prod.fst).eraseDups

def deltas (name : String) (calls : List (String × Float)) : List Float :=
  (calls.filter (·.1 = name)).map Prod.snd

/-- The sum from left to right. It starts from the first member, not from zero. -/
def total : List Float → Float
  | [] => 0
  | first :: more => more.foldl (· + ·) first

def entries (calls : List (String × Float)) : List (String × Float) :=
  (calledNames calls).map fun name => (name, total (deltas name calls))

section
variable {cap : Option Int} {xs ys : List α} {a : α}

theorem map_upTo (f : α → β) : (upTo cap xs).map f = upTo cap (xs.map f) := by
  unfold upTo
  split
  · rfl
  · exact List.map_take

theorem upTo_sublist : (upTo cap xs).Sublist xs := by
  unfold upTo
  split
  · exact List.Sublist.refl xs
  · exact List.take_sublist _ xs

theorem mem_upTo_append (h : (xs ++ ys).Nodup) (ha : a ∈ xs) :
    a ∈ upTo cap (xs ++ ys) ↔ a ∈ upTo cap xs := by
  have hy : a ∉ ys := fun hy => (List.nodup_append.1 h).2.2 a ha a hy rfl
  unfold upTo
  split
  · simp [hy]
  · rw [List.take_append, List.mem_append]
    apply or_iff_left
    exact fun hmem => hy (List.mem_of_mem_take hmem)

theorem upTo_concat_of_room (h : ∀ c, cap = some c → (xs.length : Int) < c) :
    upTo cap (xs ++ [a]) = upTo cap xs ++ [a] := by
  unfold upTo
  split
  · rfl
  · rename_i c
    have hc := h c rfl
    rw [List.take_of_length_le (by rw [List.length_append, List.length_singleton]; omega),
      List.take_of_length_le (by omega)]

theorem upTo_concat_of_full {c : Int} (h : c ≤ xs.length) :
    upTo (some c) (xs ++ [a]) = upTo (some c) xs := by
  unfold upTo
  exact List.take_append_of_le_length (by omega)

theorem upTo_of_length_le {xs : List α} (h : ∀ c, cap = some c → (xs.length : Int) ≤ c) :
    upTo cap xs = xs := by
  unfold upTo
  split
  · rfl
  · rename_i c
    have hc := h c rfl
    exact List.take_of_length_le (by omega)

theorem le_length_upTo {c : Int} (h : c ≤ xs.length) : c ≤ (upTo (some c) xs).length := by
  simp only [upTo, List.length_take]
  omega

theorem room_or_full (cap : Option Int) (n : Nat) :
    (∀ c, cap = some c → (n : Int) < c) ∨ ∃ c, cap = some c ∧ c ≤ n := by
  by_cases h : ∃ c, cap = some c ∧ c ≤ n
  · exact Or.inr h
  · left
    intro c hc
    exact Int.not_le.1 fun hle => h ⟨c, hc, hle⟩

theorem exists_full_of_not_mem_upTo (ha : a ∈ xs) (h : a ∉ upTo cap xs) :
    ∃ c, cap = some c ∧ c ≤ xs.length := by
  unfold upTo at h
  split at h
  · exact absurd ha h
  · rename_i c
    refine ⟨c, rfl, ?_⟩
    by_contra hc
    exact h (by rwa [List.take_of_length_le (by omega)])

end

section
variable (calls more : List (String × Float)) (name : String) (delta : Float)

theorem calledNames_concat : calledNames (calls ++ [(name, delta)]) =
    if name ∈ calledNames calls then calledNames calls else calledNames calls ++ [name] := by
  simp only [calledNames, List.map_append, List.map_singleton, List.eraseDups_append,
    List.mem_eraseDups]
  by_cases h : name ∈ calls.map Prod.fst <;> simp [List.removeAll, List.eraseDups_cons, h]

theorem mem_calledNames_concat : name ∈ calledNames (calls ++ [(name, delta)]) := by
  simp [calledNames]

theorem calledNames_append :
    ∃ later, calledNames (calls ++ more) = calledNames calls ++ later := by
  rw [calledNames, List.map_append, List.eraseDups_append]
  exact ⟨_, rfl⟩

theorem calledNames_nodup : (calledNames calls).Nodup := by
  induction calls using List.reverseRecOn with
  | nil => exact List.nodup_nil
  | append_singleton calls call ih =>
    rw [calledNames_concat]
    split
    · exact ih
    · rename_i h
      rw [List.nodup_append]
      refine ⟨ih, by simp, ?_⟩
      rintro a ha b hb rfl
      exact h (List.mem_singleton.1 hb ▸ ha)

/-- Later calls do not change which of the names called so far a cap allows. -/
theorem mem_upTo_calledNames_append {cap : Option Int} {name : String}
    (h : name ∈ calledNames calls) :
    name ∈ upTo cap (calledNames (calls ++ more)) ↔ name ∈ upTo cap (calledNames calls) := by
  obtain ⟨later, hlater⟩ := calledNames_append calls more
  rw [hlater]
  apply mem_upTo_append _ h
  rw [← hlater]
  exact calledNames_nodup (calls ++ more)

theorem total_concat {xs : List Float} (h : xs ≠ []) :
    total (xs ++ [delta]) = total xs + delta := by
  obtain ⟨first, rest, rfl⟩ := List.exists_cons_of_ne_nil h
  simp only [total, List.cons_append, List.foldl_append, List.foldl_cons, List.foldl_nil]

theorem deltas_concat (other : String) : deltas other (calls ++ [(name, delta)]) =
    if name = other then deltas other calls ++ [delta] else deltas other calls := by
  by_cases h : name = other <;> simp [deltas, h]

theorem deltas_ne_nil {name : String} (h : name ∈ calledNames calls) : deltas name calls ≠ [] := by
  obtain ⟨call, hcall, rfl⟩ := List.mem_map.1 (List.mem_eraseDups.1 h)
  simp only [deltas, ne_eq, List.map_eq_nil_iff, List.filter_eq_nil_iff, decide_eq_true_eq]
  exact fun hall => hall call hcall rfl

theorem deltas_eq_nil {name : String} (h : name ∉ calledNames calls) : deltas name calls = [] := by
  simp only [deltas, List.map_eq_nil_iff, List.filter_eq_nil_iff, decide_eq_true_eq]
  rintro call hcall rfl
  exact h (List.mem_eraseDups.2 (List.mem_map_of_mem hcall))

theorem entries_concat : entries (calls ++ [(name, delta)]) =
    if name ∈ calledNames calls then (entries calls).map (addTo name delta)
    else entries calls ++ [(name, delta)] := by
  have hother (other : String) (hne : name ≠ other) :
      deltas other (calls ++ [(name, delta)]) = deltas other calls := by
    rw [deltas_concat, if_neg hne]
  unfold entries
  rw [calledNames_concat]
  split
  · rw [List.map_map]
    apply List.map_congr_left
    intro other hmem
    by_cases hname : name = other
    · subst hname
      simp [addTo, deltas_concat, total_concat delta (deltas_ne_nil calls hmem)]
    · simp [addTo, hother other hname, Ne.symm hname]
  · rename_i hnew
    rw [List.map_append, List.map_singleton, deltas_concat, if_pos rfl, deltas_eq_nil calls hnew]
    congr 1
    apply List.map_congr_left
    intro other hmem
    rw [hother other fun h => hnew (h ▸ hmem)]

theorem map_fst_entries : (entries calls).map Prod.fst = calledNames calls := by
  simp [entries, Function.comp_def]

end

section
variable {s : Store} {name : String} {delta : Float} {calls : List (String × Float)} {c : Int}

theorem map_addTo_of_not_mem {slots : List (String × Float)} (h : name ∉ slots.map Prod.fst) :
    slots.map (addTo name delta) = slots := by
  apply (List.map_congr_left fun slot hslot => ?_).trans (List.map_id _)
  rw [addTo, if_neg, id]
  rintro rfl
  exact h (List.mem_map_of_mem hslot)

theorem contains_iff : s.contains name = true ↔ name ∈ s.names := by
  constructor
  · intro h
    by_contra hmem
    simp only [contains, get?, Option.isSome_iff_ne_none, ne_eq, List.lookup_eq_none_iff] at h
    exact h fun slot hslot => by
      simpa using fun heq => hmem (List.mem_map.2 ⟨slot, hslot, heq.symm⟩)
  · intro hmem
    by_contra h
    exact not_mem_names (by simpa using h) hmem

theorem accumulate_of_contains (h : s.contains name = true) :
    s.accumulate name delta = .ok (s.update name delta) := by
  rw [accumulate, dif_pos h]

theorem accumulate_of_full (h : s.contains name = false) (hcap : s.cap = some c)
    (hfull : c ≤ s.size) : s.accumulate name delta = .error ⟨name, c⟩ := by
  rw [accumulate, dif_neg (by simp [h])]
  split
  · rename_i c' hc'
    obtain rfl : c' = c := Option.some.inj (hc'.symm.trans hcap)
    rw [if_pos hfull]
  · rename_i hnone
    rw [hnone] at hcap
    cases hcap

theorem accumulate_of_room (h : s.contains name = false)
    (hroom : ∀ c, s.cap = some c → (s.size : Int) < c) :
    s.accumulate name delta = .ok (s.create name delta h) := by
  rw [accumulate, dif_neg (by simp [h])]
  split
  · rename_i c hc
    rw [if_neg (Int.not_le.2 (hroom c hc))]
  · rfl

end

/-- What a store with a cap is after some calls. -/
structure Holds (s : Store) (cap : Option Int) (calls : List (String × Float)) : Prop where
  cap_eq : s.cap = cap
  slots_eq : s.slots = upTo cap (entries calls)

section
variable {s : Store} {cap : Option Int} {calls : List (String × Float)} {name : String}
  {delta : Float} {c : Int}

theorem Holds.names_eq (h : s.Holds cap calls) : s.names = upTo cap (calledNames calls) := by
  rw [names, h.slots_eq, map_upTo, map_fst_entries]

theorem Holds.size_eq (h : s.Holds cap calls) :
    s.size = (upTo cap (calledNames calls)).length := by
  rw [← h.names_eq]
  exact (List.length_map _).symm

theorem Holds.contains_iff (h : s.Holds cap calls) :
    s.contains name = true ↔ name ∈ upTo cap (calledNames calls) := by
  rw [← h.names_eq]
  exact Store.contains_iff

theorem Holds.not_contains (h : s.Holds cap calls) (hname : name ∉ upTo cap (calledNames calls)) :
    s.contains name = false := by
  rwa [← Bool.not_eq_true, h.contains_iff]

theorem Holds.accumulate_of_full (h : s.Holds (some c) calls)
    (hname : name ∉ upTo (some c) (calledNames calls)) (hfull : c ≤ (calledNames calls).length) :
    s.accumulate name delta = .error ⟨name, c⟩ := by
  apply Store.accumulate_of_full (h.not_contains hname) h.cap_eq
  rw [h.size_eq]
  exact le_length_upTo hfull

theorem Holds.accumulate_held (h : s.Holds cap calls)
    (hname : name ∈ upTo cap (calledNames calls)) :
    ∃ s', s.accumulate name delta = .ok s' ∧ s'.Holds cap (calls ++ [(name, delta)]) := by
  refine ⟨s.update name delta, accumulate_of_contains (h.contains_iff.2 hname), h.cap_eq, ?_⟩
  rw [entries_concat, if_pos (upTo_sublist.mem hname), ← map_upTo, ← h.slots_eq]
  rfl

/-- The calls of a name that the cap leaves out change none of the slots. -/
theorem Holds.cut_off (h : s.Holds cap calls) (hcalled : name ∈ calledNames calls)
    (hname : name ∉ upTo cap (calledNames calls)) : s.Holds cap (calls ++ [(name, delta)]) := by
  have hsame : s.slots.map (addTo name delta) = s.slots :=
    map_addTo_of_not_mem fun hmem => hname (h.names_eq ▸ hmem)
  refine ⟨h.cap_eq, ?_⟩
  rw [entries_concat, if_pos hcalled, ← map_upTo, ← h.slots_eq, hsame]

theorem Holds.accumulate_new (h : s.Holds cap calls) (hnew : name ∉ calledNames calls)
    (hroom : ∀ c, cap = some c → ((calledNames calls).length : Int) < c) :
    ∃ s', s.accumulate name delta = .ok s' ∧ s'.Holds cap (calls ++ [(name, delta)]) := by
  have hnot : s.contains name = false := h.not_contains fun hmem => hnew (upTo_sublist.mem hmem)
  have hsize : s.size ≤ (calledNames calls).length := by
    rw [h.size_eq]
    exact upTo_sublist.length_le
  refine ⟨s.create name delta hnot, accumulate_of_room hnot ?_, h.cap_eq, ?_⟩
  · intro c hc
    have := hroom c (h.cap_eq ▸ hc)
    omega
  · rw [entries_concat, if_neg hnew, upTo_concat_of_room, ← h.slots_eq]
    · rfl
    · rwa [entries, List.length_map]

theorem Holds.full (h : s.Holds (some c) calls) (hnew : name ∉ calledNames calls)
    (hfull : c ≤ (calledNames calls).length) : s.Holds (some c) (calls ++ [(name, delta)]) := by
  refine ⟨h.cap_eq, ?_⟩
  rw [entries_concat, if_neg hnew, upTo_concat_of_full, h.slots_eq]
  rwa [entries, List.length_map]

/-- A call succeeds if its name is one of those that the cap allows, and else changes nothing. -/
theorem Holds.accumulate (h : s.Holds cap calls) (name : String) (delta : Float) :
    if name ∈ upTo cap (calledNames (calls ++ [(name, delta)])) then
      ∃ s', s.accumulate name delta = .ok s' ∧ s'.Holds cap (calls ++ [(name, delta)])
    else
      (∃ c, cap = some c ∧ s.accumulate name delta = .error ⟨name, c⟩) ∧
        s.Holds cap (calls ++ [(name, delta)]) := by
  rw [calledNames_concat]
  by_cases hcalled : name ∈ calledNames calls
  · rw [if_pos hcalled]
    by_cases hname : name ∈ upTo cap (calledNames calls)
    · rw [if_pos hname]
      exact h.accumulate_held hname
    · rw [if_neg hname]
      obtain ⟨c, rfl, hfull⟩ := exists_full_of_not_mem_upTo hcalled hname
      exact ⟨⟨c, rfl, h.accumulate_of_full hname hfull⟩, h.cut_off hcalled hname⟩
  · rw [if_neg hcalled]
    have hname : name ∉ upTo cap (calledNames calls) := fun hmem =>
      hcalled (upTo_sublist.mem hmem)
    rcases room_or_full cap (calledNames calls).length with hroom | ⟨c, rfl, hfull⟩
    · rw [upTo_concat_of_room hroom, if_pos (by simp)]
      exact h.accumulate_new hcalled hroom
    · rw [upTo_concat_of_full hfull, if_neg hname]
      exact ⟨⟨c, rfl, h.accumulate_of_full hname hfull⟩, h.full hcalled hfull⟩

end

section
variable (cap : Option Int) (calls : List (String × Float))

theorem addAll_concat (s : Store) (name : String) (delta : Float) :
    s.addAll (calls ++ [(name, delta)]) =
      ((s.addAll calls).accumulate name delta).toOption.getD (s.addAll calls) := by
  rw [addAll_append, addAll_singleton]

theorem empty_holds : (empty cap).Holds cap [] := by
  refine ⟨rfl, ?_⟩
  cases cap with
  | none => rfl
  | some c => exact List.take_nil.symm

theorem addAll_holds : ((empty cap).addAll calls).Holds cap calls := by
  induction calls using List.reverseRecOn with
  | nil => exact empty_holds cap
  | append_singleton calls call ih =>
    have hcall := ih.accumulate call.1 call.2
    rw [addAll_concat]
    split at hcall
    · obtain ⟨s', hs', hholds⟩ := hcall
      rw [hs']
      exact hholds
    · obtain ⟨⟨c, -, herror⟩, hholds⟩ := hcall
      rw [herror]
      exact hholds

end

/-- A capped store is an uncapped one cut off at the cap: its names are the first ones that were
called, a slot holds the sum of all the deltas of its name, and the calls of other names fail
without effect. -/
theorem addAll_capped_eq_upTo_uncapped (cap : Option Int) (calls : List (String × Float)) :
    ((empty cap).addAll calls).slots = upTo cap ((empty none).addAll calls).slots ∧
    ((empty none).addAll calls).slots =
      (calledNames calls).map (fun name => (name, total (deltas name calls))) ∧
    ((empty cap).addAll calls).names = upTo cap (calledNames calls) ∧
    ((empty none).addAll calls).names = calledNames calls ∧
    (calledNames calls).Nodup ∧
    ∀ i : Fin calls.length,
      let before := (empty cap).addAll (calls.take i)
      let after := (empty cap).addAll (calls.take (i + 1))
      if calls[i].1 ∈ upTo cap (calledNames calls) then
        before.accumulate calls[i].1 calls[i].2 = .ok after
      else
        (∃ c, cap = some c ∧
          before.accumulate calls[i].1 calls[i].2 = .error ⟨calls[i].1, c⟩) ∧
        after = before := by
  have hcapped := addAll_holds cap calls
  have huncapped := addAll_holds none calls
  refine ⟨?_, huncapped.slots_eq, hcapped.names_eq, huncapped.names_eq, calledNames_nodup calls,
    fun i => ?_⟩
  · rw [hcapped.slots_eq, huncapped.slots_eq]
    rfl
  · have htake : calls.take (i + 1) = calls.take i ++ [(calls[i].1, calls[i].2)] :=
      List.take_succ_eq_append_getElem i.isLt
    have hcalled : calls[i].1 ∈ calledNames (calls.take (i + 1)) := by
      rw [htake]
      exact mem_calledNames_concat _ _ _
    -- The calls so far settle whether the cap allows the name.
    have hmem : calls[i].1 ∈ upTo cap (calledNames calls) ↔
        calls[i].1 ∈ upTo cap (calledNames (calls.take (i + 1))) := by
      rw [← mem_upTo_calledNames_append _ (calls.drop (i + 1)) hcalled, List.take_append_drop]
    have hcall := (addAll_holds cap (calls.take i)).accumulate calls[i].1 calls[i].2
    simp only [hmem, htake, addAll_concat] at hcall ⊢
    split at hcall
    · rename_i hheld
      obtain ⟨s', hs', -⟩ := hcall
      rw [if_pos hheld, hs']
      rfl
    · rename_i hcut
      obtain ⟨⟨c, hc, herror⟩, -⟩ := hcall
      rw [if_neg hcut, herror]
      exact ⟨⟨c, hc, rfl⟩, rfl⟩

-- A slot that starts with minus zero keeps its sign.
example : ((empty (some 1)).addAll [("a", -0.0), ("b", 1), ("a", -0.0)]).slots = [("a", -0.0)] := by
  decide +kernel

end SlotCalc.Store
