/-
Maps from text keys that remember the order in which keys first came.

Inserting under a key that is present replaces the value and leaves the key in
its place; a new key goes to the end.  `get?_insert` and `keys_insert` say so.
-/
namespace Strands

/-- A map kept as its entries, oldest key first. -/
structure OrderedMap (α : Type) where
  entries : List (String × α) := []
  deriving Inhabited

namespace OrderedMap

variable {α : Type}

def empty : OrderedMap α := {}

def get? (m : OrderedMap α) (key : String) : Option α := m.entries.lookup key

/-- The keys, oldest first. -/
def keys (m : OrderedMap α) : List String := m.entries.map Prod.fst

def values (m : OrderedMap α) : List α := m.entries.map Prod.snd

def insertEntry (key : String) (value : α) : List (String × α) → List (String × α)
  | [] => [(key, value)]
  | (k, v) :: rest =>
    if k = key then (k, value) :: rest else (k, v) :: insertEntry key value rest

def insert (m : OrderedMap α) (key : String) (value : α) : OrderedMap α :=
  ⟨insertEntry key value m.entries⟩

def erase (m : OrderedMap α) (key : String) : OrderedMap α :=
  ⟨m.entries.filter fun e => e.1 ≠ key⟩

/-- The map with the given entries inserted in order. -/
def ofList (entries : List (String × α)) : OrderedMap α :=
  entries.foldl (fun m e => m.insert e.1 e.2) empty

/-- Inserting sets the value under the key and no other one. -/
theorem get?_insert (m : OrderedMap α) (key : String) (value : α) (k : String) :
    (m.insert key value).get? k = if k = key then some value else m.get? k := by
  have entry : ∀ entries : List (String × α),
      (insertEntry key value entries).lookup k =
        if k = key then some value else entries.lookup k := by
    intro entries
    induction entries with
    | nil =>
      by_cases h : k = key
      · simp [insertEntry, h]
      · simp [insertEntry, List.lookup_cons, h, beq_false_of_ne h]
    | cons e rest ih =>
      obtain ⟨k', v⟩ := e
      by_cases he : k' = key
      · subst he
        by_cases h : k = k'
        · simp [insertEntry, h]
        · simp [insertEntry, List.lookup_cons, h, beq_false_of_ne h]
      · simp only [insertEntry, he, if_false, List.lookup_cons, ih]
        by_cases h : k = key
        · subst h
          simp [beq_false_of_ne (Ne.symm he)]
        · simp [h]
  exact entry m.entries

/-- A new key goes to the end; the others stay where they are. -/
theorem keys_insert (m : OrderedMap α) (key : String) (value : α) :
    (m.insert key value).keys = if key ∈ m.keys then m.keys else m.keys ++ [key] := by
  have entry : ∀ entries : List (String × α),
      (insertEntry key value entries).map Prod.fst =
        if key ∈ entries.map Prod.fst then entries.map Prod.fst
        else entries.map Prod.fst ++ [key] := by
    intro entries
    induction entries with
    | nil => simp [insertEntry]
    | cons e rest ih =>
      by_cases he : e.1 = key
      · simp [insertEntry, he]
      · by_cases hm : key ∈ rest.map Prod.fst
        · rw [if_pos hm] at ih
          simp only [insertEntry, he, if_false, List.map_cons, ih]
          rw [if_pos (List.mem_cons_of_mem _ hm)]
        · rw [if_neg hm] at ih
          have hn : key ∉ e.1 :: rest.map Prod.fst :=
            fun h => (List.mem_cons.1 h).elim (fun h => he h.symm) hm
          simp only [insertEntry, he, if_false, List.map_cons, ih]
          rw [if_neg hn, List.cons_append]
  exact entry m.entries

end OrderedMap
end Strands
