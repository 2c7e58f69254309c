import Mathlib.Tactic.Lemma
import Workplan.Proofs.Yaml.Printed
import Workplan.Yaml.Node

/-!
# Nodes of printed values

The tokens of a printed value describe one node, the tree of the value
(`node_valueTokens`).  Printed tokens hold no tags, anchors or aliases, so of a state of
the reader only the tokens change.
-/

namespace Workplan.Yaml

/-! ## The tree of a value -/

mutual

/-- The node of a printed value. -/
def nodeOf : Json → Node
  | .str s => .scalar none (styleOf s) s
  | .arr items => .list none (itemNodes items)
  | .obj fields => .table none (fieldNodes fields)
  | v => .scalar none .plain (String.ofList (atomChars v))

def itemNodes : List Json → List Node
  | [] => []
  | v :: rest => nodeOf v :: itemNodes rest

def fieldNodes : List (String × Json) → List (Node × Node)
  | [] => []
  | (name, v) :: rest => (.scalar none (styleOf name) name, nodeOf v) :: fieldNodes rest

end

/-! ## How tokens start -/

/-- A value starts with a token that starts a node; only a list under a key starts with
the sign of an entry. -/
lemma valueTokens_starts (afterKey : Bool) (v : Json) :
    ∃ t more, valueTokens afterKey v = t :: more ∧ t ≠ .key ∧ t ≠ .value ∧ t ≠ .blockEnd ∧
      (afterKey = false → t ≠ .blockEntry) := by
  match v with
  | .null => exact ⟨_, _, rfl, nofun, nofun, nofun, fun _ => nofun⟩
  | .bool _ => exact ⟨_, _, rfl, nofun, nofun, nofun, fun _ => nofun⟩
  | .int _ => exact ⟨_, _, rfl, nofun, nofun, nofun, fun _ => nofun⟩
  | .double _ => exact ⟨_, _, rfl, nofun, nofun, nofun, fun _ => nofun⟩
  | .str _ => exact ⟨_, _, rfl, nofun, nofun, nofun, fun _ => nofun⟩
  | .arr [] => exact ⟨_, _, rfl, nofun, nofun, nofun, fun _ => nofun⟩
  | .obj [] => exact ⟨_, _, rfl, nofun, nofun, nofun, fun _ => nofun⟩
  | .obj (field :: fields) => exact ⟨_, _, rfl, nofun, nofun, nofun, fun _ => nofun⟩
  | .arr (item :: items) =>
    cases afterKey with
    | false => exact ⟨_, _, rfl, nofun, nofun, nofun, fun _ => nofun⟩
    | true => exact ⟨_, _, rfl, nofun, nofun, nofun, fun h => by cases h⟩

/-! ## Steps of the reader -/

namespace Build

section
variable {b : Build} {tail : List Token} {indentless : Bool} (fuel : Nat)

/-- A reader in front of other tokens. -/
def before (b : Build) (tokens : List Token) : Build :=
  { b with tokens }

lemma node_scalar (s : String) (style : Style) :
    node true indentless (fuel + 1) (b.before (.scalar s style :: tail)) =
      some (.scalar none style s, b.before tail) :=
  rfl

/-- The start of a list is followed by its items. -/
lemma node_list :
    node true indentless (fuel + 1) (b.before (.blockListStart :: tail))
      = (blockItems fuel [] (b.before tail)).map fun r => (.list none r.1, r.2) := by
  have hpeek : (b.before (.blockListStart :: tail)).peek = some .blockListStart := rfl
  have hproperties : (b.before (.blockListStart :: tail)).properties =
      some (none, none, b.before (.blockListStart :: tail)) := rfl
  have hnext : (b.before (.blockListStart :: tail)).next = b.before tail := rfl
  rw [node]
  simp only [hpeek, hproperties, hnext, Option.bind_eq_bind, Option.bind_some, if_true]
  cases blockItems fuel [] (b.before tail) with
  | none => rfl
  | some r => rfl

/-- The start of a table is followed by its entries. -/
lemma node_table :
    node true indentless (fuel + 1) (b.before (.blockTableStart :: tail))
      = (blockEntries fuel [] (b.before tail)).map fun r => (.table none r.1, r.2) := by
  have hpeek : (b.before (.blockTableStart :: tail)).peek = some .blockTableStart := rfl
  have hproperties : (b.before (.blockTableStart :: tail)).properties =
      some (none, none, b.before (.blockTableStart :: tail)) := rfl
  have hnext : (b.before (.blockTableStart :: tail)).next = b.before tail := rfl
  rw [node]
  simp only [hpeek, hproperties, hnext, Option.bind_eq_bind, Option.bind_some, if_true]
  cases blockEntries fuel [] (b.before tail) with
  | none => rfl
  | some r => rfl

/-- A list in the column of its key. -/
lemma node_entries :
    node true true (fuel + 1) (b.before (.blockEntry :: tail))
      = (indentlessItems fuel [] (b.before (.blockEntry :: tail))).map fun r =>
        (.list none r.1, r.2) := by
  have hpeek : (b.before (.blockEntry :: tail)).peek = some .blockEntry := rfl
  have hproperties : (b.before (.blockEntry :: tail)).properties =
      some (none, none, b.before (.blockEntry :: tail)) := rfl
  rw [node]
  simp only [hpeek, hproperties, Option.bind_eq_bind, Option.bind_some, if_true]
  cases indentlessItems fuel [] (b.before (.blockEntry :: tail)) with
  | none => rfl
  | some r => rfl

/-- Empty brackets are an empty list or table. -/
lemma node_brackets (table : Bool) :
    node true indentless (fuel + 2) (b.before (bracketTokens table ++ tail))
      = some (if table then .table none [] else .list none [], b.before tail) := by
  cases table with
  | false => rfl
  | true => rfl

/-- Where a value starts, there is a node. -/
lemma nodeOrEmpty_valueTokens (v : Json) {afterKey : Bool} {ends : List Token}
    (hends : ∀ t ∈ ends, t = .key ∨ t = .value ∨ t = .blockEnd ∨
      (t = .blockEntry ∧ afterKey = false)) :
    nodeOrEmpty true indentless ends (fuel + 1) (b.before (valueTokens afterKey v ++ tail))
      = node true indentless fuel (b.before (valueTokens afterKey v ++ tail)) := by
  obtain ⟨t, more, htokens, hkey, hvalue, hend, hentry⟩ := valueTokens_starts afterKey v
  have ht : ends.contains t = false := by
    refine Bool.eq_false_iff.mpr fun hmem => ?_
    rcases hends t (List.contains_iff_mem.mp hmem) with h | h | h | ⟨h, hafter⟩
    · exact hkey h
    · exact hvalue h
    · exact hend h
    · exact hentry hafter h
  rw [htokens]
  show (if ends.contains t then _ else _) = _
  rw [ht]
  rfl

lemma blockItems_entry (acc : List Node) :
    blockItems (fuel + 1) acc (b.before (.blockEntry :: tail))
      = (nodeOrEmpty true false [.blockEntry, .blockEnd] fuel (b.before tail)).bind fun r =>
          blockItems fuel (r.1 :: acc) r.2 :=
  rfl

lemma indentlessItems_entry (acc : List Node) :
    indentlessItems (fuel + 1) acc (b.before (.blockEntry :: tail))
      = (nodeOrEmpty true false [.blockEntry, .key, .value, .blockEnd] fuel
        (b.before tail)).bind fun r =>
          indentlessItems fuel (r.1 :: acc) r.2 :=
  rfl

/-- A list in the column of its key ends where no further entry follows. -/
lemma indentlessItems_end (acc : List Node) (htail : tail.head? ≠ some .blockEntry) :
    indentlessItems (fuel + 1) acc (b.before tail) = some (acc.reverse, b.before tail) := by
  have hpeek : (b.before tail).peek = tail.head? := rfl
  rw [indentlessItems, hpeek]
  split
  · next h => exact absurd h htail
  · rfl

lemma blockEntries_key (acc : List (Node × Node)) (name : String) (style : Style) :
    blockEntries (fuel + 3) acc (b.before (.key :: .scalar name style :: .value :: tail))
      = (nodeOrEmpty true true [.key, .value, .blockEnd] (fuel + 1)
        (b.before tail)).bind fun r =>
          blockEntries (fuel + 2) ((.scalar none style name, r.1) :: acc) r.2 :=
  rfl

end

/-! ## Reading printed tokens -/

mutual

/-- The tokens of a value are read as its node, with three rounds of the reader for each
of them and two for the node itself.  A list under a key has no end of its own, so no
entry may follow it. -/
theorem node_valueTokens (v : Json) {afterKey indentless : Bool} (b : Build)
    {tail : List Token} {fuel : Nat}
    (hunder : afterKey = true → indentless = true ∧ tail.head? ≠ some .blockEntry)
    (hfuel : 3 * (valueTokens afterKey v).length + 2 ≤ fuel) :
    node true indentless fuel (b.before (valueTokens afterKey v ++ tail)) =
      some (nodeOf v, b.before tail) := by
  obtain ⟨fuel, rfl⟩ : ∃ f, fuel = f + 2 := ⟨fuel - 2, by omega⟩
  match v with
  | .null => exact node_scalar _ _ _
  | .bool _ => exact node_scalar _ _ _
  | .int _ => exact node_scalar _ _ _
  | .double _ => exact node_scalar _ _ _
  | .str _ => exact node_scalar _ _ _
  | .arr [] => exact node_brackets _ false
  | .obj [] => exact node_brackets _ true
  | .arr (item :: items) =>
    cases afterKey with
    | false =>
      have htokens : valueTokens false (.arr (item :: items)) ++ tail
          = .blockListStart :: (itemTokens (item :: items) ++ .blockEnd :: tail) := by
        simp [valueTokens]
      have hlength : (valueTokens false (.arr (item :: items))).length =
          (itemTokens (item :: items)).length + 2 := by
        simp [valueTokens]
      rw [htokens, node_list, blockItems_itemTokens (item :: items) [] b (by omega)]
      rfl
    -- The list is read entry by entry, up to a token that is not the sign of one.
    | true =>
      obtain ⟨rfl, htail⟩ := hunder rfl
      have htokens : valueTokens true (.arr (item :: items)) = itemTokens
          (item :: items) := rfl
      rw [htokens] at hfuel ⊢
      have hitems := indentlessItems_itemTokens (item :: items) [] b htail
        (Nat.le_of_succ_le_succ hfuel)
      rw [itemTokens, List.cons_append] at hitems ⊢
      rw [node_entries, hitems]
      rfl
  | .obj (field :: fields) =>
    have htokens : valueTokens afterKey (.obj (field :: fields)) ++ tail
        = .blockTableStart :: (fieldTokens (field :: fields) ++ .blockEnd :: tail) := by
      simp [valueTokens]
    have hlength : (valueTokens afterKey (.obj (field :: fields))).length =
        (fieldTokens (field :: fields)).length + 2 := by
      simp [valueTokens]
    rw [htokens, node_table, blockEntries_fieldTokens (field :: fields) [] b (by omega)]
    rfl

/-- The tokens of items are built to their nodes. -/
theorem blockItems_itemTokens (items : List Json) (acc : List Node) (b : Build)
    {tail : List Token} {fuel : Nat} (hfuel : 3 * (itemTokens items).length + 1 ≤ fuel) :
    blockItems fuel acc (b.before (itemTokens items ++ .blockEnd :: tail))
      = some (acc.reverse ++ itemNodes items, b.before tail) := by
  match items with
  | [] =>
    obtain ⟨fuel, rfl⟩ : ∃ f, fuel = f + 1 := ⟨fuel - 1, by omega⟩
    rw [itemNodes, List.append_nil]
    rfl
  -- One round for the sign of the entry and one for looking whether a node follows.
  | v :: more =>
    have hlength : (itemTokens (v :: more)).length = (valueTokens false v).length +
        (itemTokens more).length + 1 := by
      simp [itemTokens]
    obtain ⟨fuel, rfl⟩ : ∃ f, fuel = f + 2 := ⟨fuel - 2, by omega⟩
    have hvalue : node true false fuel
        (b.before (valueTokens false v ++ (itemTokens more ++ .blockEnd :: tail)))
        = some (nodeOf v, b.before (itemTokens more ++ .blockEnd :: tail)) :=
      node_valueTokens v b (fun h => by cases h) (by omega)
    rw [itemTokens, List.cons_append, List.append_assoc, blockItems_entry,
      nodeOrEmpty_valueTokens _ _ (by decide), hvalue]
    show blockItems (fuel + 1) (nodeOf v :: acc) _ = _
    rw [blockItems_itemTokens more (nodeOf v :: acc) b (by omega)]
    simp [itemNodes]

theorem indentlessItems_itemTokens (items : List Json) (acc : List Node) (b : Build)
    {tail : List Token} (htail : tail.head? ≠ some .blockEntry) {fuel : Nat}
    (hfuel : 3 * (itemTokens items).length + 1 ≤ fuel) :
    indentlessItems fuel acc (b.before (itemTokens items ++ tail))
      = some (acc.reverse ++ itemNodes items, b.before tail) := by
  match items with
  | [] =>
    obtain ⟨fuel, rfl⟩ : ∃ f, fuel = f + 1 := ⟨fuel - 1, by omega⟩
    rw [itemNodes, List.append_nil]
    exact indentlessItems_end fuel acc htail
  | v :: more =>
    have hlength : (itemTokens (v :: more)).length = (valueTokens false v).length +
        (itemTokens more).length + 1 := by
      simp [itemTokens]
    obtain ⟨fuel, rfl⟩ : ∃ f, fuel = f + 2 := ⟨fuel - 2, by omega⟩
    have hvalue : node true false fuel
        (b.before (valueTokens false v ++ (itemTokens more ++ tail)))
        = some (nodeOf v, b.before (itemTokens more ++ tail)) :=
      node_valueTokens v b (fun h => by cases h) (by omega)
    rw [itemTokens, List.cons_append, List.append_assoc, indentlessItems_entry,
      nodeOrEmpty_valueTokens _ _ (by decide), hvalue]
    show indentlessItems (fuel + 1) (nodeOf v :: acc) _ = _
    rw [indentlessItems_itemTokens more (nodeOf v :: acc) b htail (by omega)]
    simp [itemNodes]

/-- The tokens of fields are built to their nodes. -/
theorem blockEntries_fieldTokens (fields : List (String × Json))
    (acc : List (Node × Node)) (b : Build) {tail : List Token} {fuel : Nat}
    (hfuel : 3 * (fieldTokens fields).length + 1 ≤ fuel) :
    blockEntries fuel acc (b.before (fieldTokens fields ++ .blockEnd :: tail))
      = some (acc.reverse ++ fieldNodes fields, b.before tail) := by
  match fields with
  | [] =>
    obtain ⟨fuel, rfl⟩ : ∃ f, fuel = f + 1 := ⟨fuel - 1, by omega⟩
    rw [fieldNodes, List.append_nil]
    rfl
  | (name, v) :: more =>
    have hlength : (fieldTokens ((name, v) :: more)).length
        = (valueTokens (isShortKey name) v).length + (fieldTokens more).length + 3 := by
      simp [fieldTokens]
    obtain ⟨fuel, rfl⟩ : ∃ f, fuel = f + 3 := ⟨fuel - 3, by omega⟩
    -- Behind the value stands another key or the end of the table, so a list under the
    -- key ends there.
    have hnext : (fieldTokens more ++ .blockEnd :: tail).head? ≠ some .blockEntry := by
      cases more with
      | nil => nofun
      | cons field more => nofun
    have hvalue : node true true fuel
        (b.before
          (valueTokens (isShortKey name) v ++ (fieldTokens more ++ .blockEnd :: tail)))
        = some (nodeOf v, b.before (fieldTokens more ++ .blockEnd :: tail)) :=
      node_valueTokens v b (fun _ => ⟨rfl, hnext⟩) (by omega)
    rw [fieldTokens, List.cons_append, List.cons_append, List.cons_append,
      List.append_assoc, blockEntries_key, nodeOrEmpty_valueTokens _ _ (by simp), hvalue]
    show blockEntries (fuel + 2) (_ :: acc) _ = _
    rw [blockEntries_fieldTokens more _ b (by omega)]
    simp [fieldNodes]

end

end Build

end Workplan.Yaml
