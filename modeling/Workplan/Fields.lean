/-!
# Fields

Lists of named values in strictly increasing order of name, which is the order of the
names' UTF-8 bytes.  `insert` keeps the order and lets the later of two values for one
name win; `lookup` after `insert` is the finite-map law.
-/

namespace Workplan.Fields

variable {α : Type}

/-- Names strictly increase along the list, so no name occurs twice. -/
def Ordered (fields : List (String × α)) : Prop :=
  fields.Pairwise fun a b => a.1 < b.1

/-- Gives a name a value, in its place in the order; an earlier value is replaced. -/
def insert (name : String) (value : α) : List (String × α) → List (String × α)
  | [] => [(name, value)]
  | (other, old) :: rest =>
    if name < other then (name, value) :: (other, old) :: rest
    else if name = other then (name, value) :: rest
    else (other, old) :: insert name value rest

/-- The value of a name. -/
def lookup (name : String) : List (String × α) → Option α
  | [] => none
  | (other, value) :: rest => if name = other then some value else lookup name rest

/-- Named values in any order as fields; of several values for one name the last one
stays. -/
def ofEntries (entries : List (String × α)) : List (String × α) :=
  entries.foldl (fun fields e => insert e.1 e.2 fields) []

theorem ordered_nil : Ordered ([] : List (String × α)) :=
  List.Pairwise.nil

/-- What is in the fields after an insertion was put there or was there before. -/
theorem mem_insert {name : String} {value : α} {e : String × α} {fields : List (String × α)}
    (h : e ∈ insert name value fields) : e = (name, value) ∨ e ∈ fields := by
  induction fields with
  | nil => simpa [insert] using h
  | cons head rest ih =>
    obtain ⟨other, old⟩ := head
    rw [insert] at h
    split at h
    · simpa using h
    · split at h <;> grind

/-- Insertion keeps the order. -/
theorem ordered_insert (name : String) (value : α) {fields : List (String × α)}
    (h : Ordered fields) : Ordered (insert name value fields) := by
  induction fields with
  | nil => simp [insert, Ordered]
  | cons head rest ih =>
    obtain ⟨other, old⟩ := head
    have hrest : Ordered rest := List.Pairwise.of_cons h
    have hhead : ∀ e ∈ rest, other < e.1 := fun e he => List.rel_of_pairwise_cons h he
    rw [insert]
    split
    · next hlt =>
      refine List.Pairwise.cons ?_ h
      intro e he
      rcases List.mem_cons.mp he with rfl | he
      · exact hlt
      · exact String.lt_trans hlt (hhead e he)
    · next hnlt =>
      split
      · next heq => exact List.Pairwise.cons (fun e he => heq ▸ hhead e he) hrest
      · next hne =>
        refine List.Pairwise.cons ?_ (ih hrest)
        intro e he
        rcases mem_insert he with rfl | he
        · rcases Decidable.em (other < name) with hlt | hge
          · exact hlt
          · exact absurd
              (String.le_antisymm (String.not_lt.mp hge) (String.not_lt.mp hnlt)) hne
        · exact hhead e he

@[simp] theorem lookup_insert_self (name : String) (value : α)
    (fields : List (String × α)) :
    lookup name (insert name value fields) = some value := by
  induction fields with
  | nil => simp [insert, lookup]
  | cons head rest ih => grind [insert, lookup]

theorem lookup_insert_of_ne {name other : String} (value : α) (fields : List (String × α))
    (h : other ≠ name) : lookup other (insert name value fields) = lookup other fields := by
  induction fields with
  | nil => simp [insert, lookup, h]
  | cons head rest ih => grind [insert, lookup]

/-- A name that no field has stands for nothing. -/
theorem lookup_eq_none {name : String} {fields : List (String × α)}
    (h : ∀ e ∈ fields, e.1 ≠ name) :
    lookup name fields = none := by
  induction fields with
  | nil => rfl
  | cons head rest ih =>
    rw [List.forall_mem_cons] at h
    rw [lookup, if_neg (Ne.symm h.1), ih h.2]

theorem lookup_head (e : String × α) (rest : List (String × α)) :
    lookup e.1 (e :: rest) = some e.2 := by
  rw [lookup, if_pos rfl]

/-- The first of ordered fields does not occur again. -/
theorem Ordered.lookup_behind {e : String × α} {rest : List (String × α)}
    (h : Ordered (e :: rest)) :
    lookup e.1 rest = none :=
  lookup_eq_none fun _ he => (String.ne_of_lt (List.rel_of_pairwise_cons h he)).symm

/-- No name in front of the first one occurs among ordered fields. -/
theorem Ordered.lookup_before {e : String × α} {rest : List (String × α)}
    (h : Ordered (e :: rest)) {name : String} (hlt : name < e.1) :
    lookup name (e :: rest) = none := by
  refine lookup_eq_none
    (List.forall_mem_cons.mpr ⟨(String.ne_of_lt hlt).symm, fun e' he' => ?_⟩)
  exact (String.ne_of_lt (String.lt_trans hlt (List.rel_of_pairwise_cons h he'))).symm

/-- Fields in order are determined by what their names stand for. -/
theorem eq_of_lookup {fields fields' : List (String × α)} (h : Ordered fields)
    (h' : Ordered fields') (hsame : ∀ name, lookup name fields = lookup name fields') :
    fields = fields' := by
  induction fields generalizing fields' with
  | nil =>
    cases fields' with
    | nil => rfl
    | cons e' rest' =>
      have hlookup := hsame e'.1; rw [lookup_head] at hlookup; cases hlookup
  | cons e rest ih =>
    cases fields' with
    | nil => have hlookup := hsame e.1; rw [lookup_head] at hlookup; cases hlookup
    | cons e' rest' =>
      -- If one of the first names were the smaller one, it would have a value on
      -- one side only.
      have hnot : ¬ e.1 < e'.1 := by
        intro hlt
        have hlookup := hsame e.1
        rw [lookup_head, h'.lookup_before hlt] at hlookup
        cases hlookup
      have hnot' : ¬ e'.1 < e.1 := by
        intro hlt
        have hlookup := hsame e'.1
        rw [lookup_head, h.lookup_before hlt] at hlookup
        cases hlookup
      have hname : e.1 = e'.1 :=
        String.le_antisymm (String.not_lt.mp hnot') (String.not_lt.mp hnot)
      have hvalue : e.2 = e'.2 := by
        have hlookup := hsame e.1
        rw [lookup_head, hname, lookup_head] at hlookup
        exact Option.some.inj hlookup
      obtain rfl : e = e' := Prod.ext hname hvalue
      refine congrArg (e :: ·)
        (ih (List.Pairwise.of_cons h) (List.Pairwise.of_cons h') fun name => ?_)
      by_cases heq : name = e.1
      · rw [heq, h.lookup_behind, h'.lookup_behind]
      · have hlookup := hsame name
        rwa [lookup, if_neg heq, lookup, if_neg heq] at hlookup

end Workplan.Fields
