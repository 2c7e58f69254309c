import Workplan.Json.Basic

/-!
# Stores

A store gives names to values.  Its entries are ordered by name, so a store is determined
by what its names stand for, and its listing never depends on the order of writes.
Whoever is to read or write a store holds a handle on it.
-/

namespace Workplan

/-- A handle on a store, for those who are to read or write it.  Handles with one number
are handles on one store. -/
structure StoreHandle where
  number : Nat := 0
deriving DecidableEq

/-- Named values, ordered by name. -/
structure Store where
  entries : List (String × Json)
  ordered : Fields.Ordered entries

namespace Store

/-- The store without entries. -/
def empty : Store := ⟨[], Fields.ordered_nil⟩

instance : Inhabited Store := ⟨empty⟩

/-- The value of a name. -/
def get? (s : Store) (key : String) : Option Json :=
  Fields.lookup key s.entries

/-- Gives a name a value, replacing an earlier one. -/
def set (s : Store) (key : String) (value : Json) : Store :=
  ⟨Fields.insert key value s.entries, Fields.ordered_insert key value s.ordered⟩

/-- Whether a name has a value. -/
def contains (s : Store) (key : String) : Bool :=
  (s.get? key).isSome

/-- Number of names. -/
def size (s : Store) : Nat :=
  s.entries.length

/-- Whether there are no names. -/
def isEmpty (s : Store) : Bool :=
  s.entries.isEmpty

/-- The names, in increasing order. -/
def keys (s : Store) : List String :=
  s.entries.map Prod.fst

/-- All entries as one value. -/
def snapshot (s : Store) : Json :=
  .obj s.entries

/-- Writes entries one after another, so that the last value of a name stays. -/
def setAll (s : Store) (entries : List (String × Json)) : Store :=
  entries.foldl (fun s e => s.set e.1 e.2) s

/-- The store with the given entries; the last value of a name stays. -/
def ofEntries (entries : List (String × Json)) : Store :=
  empty.setAll entries

@[simp] theorem get?_empty (key : String) : empty.get? key = none := rfl

@[simp] theorem get?_set_self (s : Store) (key : String) (value : Json) :
    (s.set key value).get? key = some value :=
  Fields.lookup_insert_self key value s.entries

theorem get?_set_of_ne (s : Store) {key other : String} (value : Json) (h : other ≠ key) :
    (s.set key value).get? other = s.get? other :=
  Fields.lookup_insert_of_ne value s.entries h

/-- A store is determined by what its names stand for. -/
theorem ext_get? {s t : Store} (h : ∀ key, s.get? key = t.get? key) : s = t := by
  obtain ⟨entries, ordered⟩ := s
  obtain ⟨entries', ordered'⟩ := t
  obtain rfl : entries = entries' := Fields.eq_of_lookup ordered ordered' h
  rfl

end Store
end Workplan
