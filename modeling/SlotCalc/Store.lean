import SlotCalc.Decimal.Layout
import SlotCalc.Text.Quoted

namespace SlotCalc

/-- The slots in the order in which they were created, and how many of them there may be. -/
structure Store where
  slots : List (String × Float) := []
  cap : Option Int := none
  names_nodup : (slots.map Prod.fst).Nodup := by simp

namespace Store

def empty (cap : Option Int) : Store := { cap }

def names (s : Store) : List String := s.slots.map Prod.fst

def size (s : Store) : Nat := s.slots.length

def get? (s : Store) (name : String) : Option Float := s.slots.lookup name

/-- The value of a slot; a slot that does not exist reads as zero. -/
def get (s : Store) (name : String) : Float := (s.get? name).getD 0

def contains (s : Store) (name : String) : Bool := (s.get? name).isSome

def isFull (s : Store) : Bool := s.cap.any fun cap => cap ≤ (s.size : Int)

def addTo (name : String) (delta : Float) (slot : String × Float) : String × Float :=
  if slot.1 = name then (slot.1, slot.2 + delta) else slot

theorem map_fst_addTo (name : String) (delta : Float) (slots : List (String × Float)) :
    (slots.map (addTo name delta)).map Prod.fst = slots.map Prod.fst := by
  rw [List.map_map]
  congr 1
  funext slot
  simp only [Function.comp_apply, addTo]
  split <;> rfl

theorem not_mem_names {s : Store} {name : String} (h : s.contains name = false) :
    name ∉ s.slots.map Prod.fst := by
  intro hm
  obtain ⟨slot, hs, rfl⟩ := List.mem_map.1 hm
  simp only [contains, get?, Option.isSome_eq_false_iff, Option.isNone_iff_eq_none,
    List.lookup_eq_none_iff] at h
  simpa using h slot hs

def update (s : Store) (name : String) (delta : Float) : Store :=
  { slots := s.slots.map (addTo name delta)
    cap := s.cap
    names_nodup := by rw [map_fst_addTo]; exact s.names_nodup }

/-- A new slot, which starts with the value itself. -/
def create (s : Store) (name : String) (value : Float) (h : s.contains name = false) : Store :=
  { slots := s.slots ++ [(name, value)]
    cap := s.cap
    names_nodup := by
      rw [List.map_append, List.nodup_append]
      refine ⟨s.names_nodup, by simp, ?_⟩
      rintro a ha b hb rfl
      obtain rfl : a = name := by simpa using hb
      exact not_mem_names h ha }

structure Full where
  name : String
  cap : Int
  deriving DecidableEq, Repr

def Full.message (e : Full) : String :=
  "Memory is full (" ++ toString e.cap ++ " slots), cannot create slot " ++ Text.quoted e.name

def accumulate (s : Store) (name : String) (delta : Float) : Except Full Store :=
  if h : s.contains name = true then .ok (s.update name delta)
  else
    match s.cap with
    | some cap =>
      if cap ≤ s.size then .error ⟨name, cap⟩
      else .ok (s.create name delta (by simpa using h))
    | none => .ok (s.create name delta (by simpa using h))

/-- Adds to slots in turn. What a full store refuses has no effect. -/
def addAll (s : Store) (entries : List (String × Float)) : Store :=
  entries.foldl (fun s e => (s.accumulate e.1 e.2).toOption.getD s) s

theorem addAll_singleton (s : Store) (name : String) (delta : Float) :
    s.addAll [(name, delta)] = (s.accumulate name delta).toOption.getD s := rfl

theorem addAll_append (s : Store) (entries more : List (String × Float)) :
    s.addAll (entries ++ more) = (s.addAll entries).addAll more :=
  List.foldl_append

def withCap (s : Store) (cap : Option Int) : Store := { s with cap }

def listing (s : Store) : String :=
  let entries := s.slots.map fun slot => Text.quoted slot.1 ++ ": " ++ Decimal.plain slot.2
  let cap :=
    match s.cap with
    | none => "None"
    | some cap => toString cap
  "MemoryStore(\x7b" ++ ", ".intercalate entries ++ "\x7d, max_slots=" ++ cap ++ ")"

end Store

end SlotCalc
