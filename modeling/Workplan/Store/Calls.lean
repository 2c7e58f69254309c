import Workplan.Store

/-!
# Calls on stores

The calls that can be made on a store, what each of them answers, and handles.  Every
handle belongs to one store, several handles may belong to the same, and a call through a
handle is a call on its store.
-/

namespace Workplan

/-- A call on a store. -/
inductive StoreCall where
  | set (key : String) (value : Json)
  | get (key : String)
  | contains (key : String)
  | size
  | keys
  | snapshot

/-- What a call on a store answers. -/
inductive StoreAnswer where
  /-- The number of names after a write. -/
  | written (size : Nat)
  | value (v : Option Json)
  | truth (b : Bool)
  | counted (size : Nat) (isEmpty : Bool)
  | names (keys : List String)
  | whole (entries : List (String × Json))

namespace Store

/-- The store after a call. -/
def after (s : Store) : StoreCall → Store
  | .set key value => s.set key value
  | _ => s

/-- What a call answers. -/
def answer (s : Store) : StoreCall → StoreAnswer
  | .set key value => .written (s.set key value).size
  | .get key => .value (s.get? key)
  | .contains key => .truth (s.contains key)
  | .size => .counted s.size s.isEmpty
  | .keys => .names s.keys
  | .snapshot => .whole s.entries

end Store

/-- Stores by number, and the store to which each handle belongs. -/
structure Handles where
  owner : Nat → Nat
  stores : Nat → Store

namespace Handles

/-- Handles on stores that are all empty. -/
def fresh (owner : Nat → Nat) : Handles :=
  ⟨owner, fun _ => .empty⟩

/-- The store behind a handle. -/
def store (h : Handles) (handle : Nat) : Store :=
  h.stores (h.owner handle)

/-- A call through a handle. -/
def call (h : Handles) (handle : Nat) (c : StoreCall) : Handles × StoreAnswer :=
  ({ h with stores := fun n => if n = h.owner handle then (h.store handle).after c
    else h.stores n },
    (h.store handle).answer c)

end Handles
end Workplan
