import Workplan.Proofs.Json.Ordered

/-!
# Documents of values

What a notation says for a value: the document of the value, up to the text that the
notation lends to a number, a truth value or null (`Document.rendered`).  Holding it back
gives the data of the value, and reading it as a value gives the value
(`toContent_rendered`, `toJson_rendered`).  Conversely the values that are read from
documents and from data are in order, and nested no deeper than what they are read from.
-/

namespace Workplan

/-- A computation that succeeds succeeds in its first part. -/
theorem exists_of_bind_eq_ok {ε α β : Type} {x : Except ε α} {f : α → Except ε β} {b : β}
    (h : x >>= f = .ok b) :
    ∃ a, x = .ok a ∧ f a = .ok b := by
  cases x with
  | error e => cases h
  | ok a => exact ⟨a, rfl, h⟩

theorem exists_of_map_eq_ok {ε α β : Type} {x : Except ε α} {f : α → β} {b : β}
    (h : x.map f = .ok b) :
    ∃ a, x = .ok a ∧ f a = b := by
  cases x with
  | error e => cases h
  | ok a => exact ⟨a, rfl, Except.ok.inj h⟩

theorem exists_of_placed_eq_ok {α : Type} {path : Document.Path}
    {x : Except Document.Cause α} {a : α} (h : Document.placed path x = .ok a) :
    x = .ok a := by
  cases x with
  | error e => cases h
  | ok b => exact congrArg Except.ok (Except.ok.inj h)

/-! ## Data -/

namespace Content

mutual

/-- Data that a value is held back as stands for the value. -/
theorem toJson_ofJson (v : Json) (h : v.Ordered) : (ofJson v).toJson = .ok v := by
  match v with
  | .null => rfl
  | .bool _ => rfl
  | .int _ => rfl
  | .double _ => rfl
  | .str _ => rfl
  | .arr items =>
    rw [ofJson, toJson, toJsonItems_ofJson items h]
    rfl
  | .obj fields =>
    rw [ofJson, toJson, toJsonEntries_ofJson fields h.2 true]
    show Except.ok (Json.obj (Fields.ofEntries fields)) = _
    rw [Fields.ofEntries_of_ordered h.1]

/-- Items that are held back give themselves again. -/
theorem toJsonItems_ofJson (items : List Json) (h : Json.OrderedItems items) :
    toJsonItems (ofJsonItems items) = .ok items := by
  match items with
  | [] => rfl
  | v :: rest =>
    rw [ofJsonItems, toJsonItems, toJson_ofJson v h.1, toJsonItems_ofJson rest h.2]
    rfl

/-- So do fields, if they are in order. -/
theorem toJsonEntries_ofJson (fields : List (String × Json))
    (h : Json.OrderedFields fields) (first : Bool) :
    toJsonEntries first (ofJsonFields fields) = .ok fields := by
  match fields with
  | [] => rfl
  | (name, v) :: rest =>
    rw [ofJsonFields, text, toJsonEntries, toJson_ofJson v h.1,
      toJsonEntries_ofJson rest h.2 false]
    rfl

end

mutual

/-- How deep collections are nested. -/
def depth : Content → Nat
  | atom _ => 0
  | list items => 1 + depthItems items
  | table entries => 1 + depthEntries entries

def depthItems : List Content → Nat
  | [] => 0
  | c :: rest => max (depth c) (depthItems rest)

def depthEntries : List (Content × Content) → Nat
  | [] => 0
  | (_, c) :: rest => max (depth c) (depthEntries rest)

end

mutual

/-- A value that data stands for fits into the depth of the data. -/
theorem fits_toJson (c : Content) {v : Json} (h : c.toJson = .ok v) : v.Fits c.depth := by
  match c with
  | atom a =>
    have hatom : v.Ordered ∧ v.depth = 0 := by
      unfold toJson at h
      split at h
      all_goals first | cases h; exact ⟨trivial, rfl⟩ | skip
      all_goals simp_all
    exact ⟨hatom.1, Nat.le_of_eq hatom.2⟩
  | list items =>
    obtain ⟨vs, hvs, hv⟩ := exists_of_bind_eq_ok h
    obtain rfl := Except.ok.inj hv
    have hitems := fits_toJsonItems items hvs
    rw [depth, Nat.add_comm]
    exact Json.fits_arr hitems
  | table entries =>
    obtain ⟨es, hes, hv⟩ := exists_of_bind_eq_ok h
    obtain rfl := Except.ok.inj hv
    have hentries := fits_toJsonEntries entries hes
    rw [depth, Nat.add_comm]
    exact Json.fits_ofEntries hentries

/-- A value that is made from items is not deeper than they are. -/
theorem fits_toJsonItems (items : List Content) {vs : List Json}
    (h : toJsonItems items = .ok vs) :
    ∀ v ∈ vs, v.Fits (depthItems items) := by
  match items with
  | [] =>
    obtain rfl := Except.ok.inj h
    exact fun v hv => absurd hv List.not_mem_nil
  | c :: rest =>
    obtain ⟨v, hv, h⟩ := exists_of_bind_eq_ok h
    obtain ⟨more, hmore, h⟩ := exists_of_bind_eq_ok h
    obtain rfl := Except.ok.inj h
    rw [List.forall_mem_cons]
    refine ⟨(fits_toJson c hv).mono (Nat.le_max_left _ _), fun w hw => ?_⟩
    exact (fits_toJsonItems rest hmore w hw).mono (Nat.le_max_right _ _)

/-- Neither is one that is made from fields. -/
theorem fits_toJsonEntries (entries : List (Content × Content)) {first : Bool}
    {es : List (String × Json)} (h : toJsonEntries first entries = .ok es) :
    ∀ e ∈ es, e.2.Fits (depthEntries entries) := by
  match entries with
  | [] =>
    obtain rfl := Except.ok.inj h
    exact fun v hv => absurd hv List.not_mem_nil
  | (key, c) :: rest =>
    have hrest : ∀ {name : String}, toJsonEntries first ((text name, c) :: rest) = .ok es →
        ∀ e ∈ es, e.2.Fits (depthEntries ((key, c) :: rest)) := by
      intro name h
      obtain ⟨v, hv, h⟩ := exists_of_bind_eq_ok h
      obtain ⟨more, hmore, h⟩ := exists_of_bind_eq_ok h
      obtain rfl := Except.ok.inj h
      rw [List.forall_mem_cons]
      refine ⟨(fits_toJson c hv).mono (Nat.le_max_left _ _), fun e he => ?_⟩
      exact (fits_toJsonEntries rest hmore e he).mono (Nat.le_max_right _ _)
    match key with
    | atom (.text name) => exact hrest h
    | atom .unit => cases h
    | atom (.bool _) => cases h
    | atom (.int _) => cases h
    | atom (.float _) => cases h
    | list _ => cases h
    | table _ => cases h

end

end Content

/-! ## Documents -/

namespace Document

mutual

/-- The document of a value, where the notation lends texts to atoms. -/
def rendered (text : Json → Option String) : Json → Document
  | .null => scalar ⟨text .null, .ok true, false, .ok .unit⟩
  | .bool b => scalar ⟨text (.bool b), .ok false, false, .ok (.bool b)⟩
  | .int n => scalar ⟨text (.int n), .ok false, false, .ok (.int n)⟩
  | .double d => scalar ⟨text (.double d), .ok false, false, .ok (.float (.finite d))⟩
  | .str s => ofText s
  | .arr items => list (renderedItems text items)
  | .obj fields => table (renderedFields text fields)

def renderedItems (text : Json → Option String) : List Json → List Document
  | [] => []
  | v :: rest => rendered text v :: renderedItems text rest

def renderedFields (text : Json → Option String) :
    List (String × Json) → List (Option String × Document × Document)
  | [] => []
  | (name, v) :: rest =>
    (some name, ofText name, rendered text v) :: renderedFields text rest

end

mutual

/-- To hold a rendered value back is to hold back the value. -/
theorem toContent_rendered (text : Json → Option String) (path : Path) (v : Json) :
    (rendered text v).toContent path = .ok (Content.ofJson v) := by
  match v with
  | .null => rfl
  | .bool _ => rfl
  | .int _ => rfl
  | .double _ => rfl
  | .str _ => rfl
  | .arr items =>
    rw [rendered, toContent, toContentItems_rendered text path 0 items]
    rfl
  | .obj fields =>
    rw [rendered, toContent, toContentEntries_rendered text path fields]
    rfl

theorem toContentItems_rendered (text : Json → Option String) (path : Path) (index : Nat)
    (items : List Json) :
    toContentItems path index (renderedItems text items) =
      .ok (Content.ofJsonItems items) := by
  match items with
  | [] => rfl
  | v :: rest =>
    rw [renderedItems, toContentItems, toContent_rendered text _ v,
      toContentItems_rendered text path _ rest]
    rfl

theorem toContentEntries_rendered (text : Json → Option String) (path : Path)
    (fields : List (String × Json)) :
    toContentEntries path (renderedFields text fields) =
      .ok (Content.ofJsonFields fields) := by
  match fields with
  | [] => rfl
  | (name, v) :: rest =>
    rw [renderedFields, toContentEntries, toContent_rendered text _ v,
      toContentEntries_rendered text path rest]
    rfl

end

mutual

/-- A rendered value is read as itself. -/
theorem toJson_rendered (text : Json → Option String) (path : Path)
    (v : Json) (h : v.Ordered) :
    (rendered text v).toJson path = .ok v := by
  match v with
  | .null => rfl
  | .bool _ => rfl
  | .int _ => rfl
  | .double _ => rfl
  | .str _ => rfl
  | .arr items =>
    rw [rendered, toJson, toJsonItems_rendered text path 0 items h]
    rfl
  | .obj fields =>
    rw [rendered, toJson, toJsonEntries_rendered text path true fields h.2]
    show Except.ok (Json.obj (Fields.ofEntries fields)) = _
    rw [Fields.ofEntries_of_ordered h.1]

/-- Rendered items are read as themselves. -/
theorem toJsonItems_rendered (text : Json → Option String) (path : Path) (index : Nat)
    (items : List Json) (h : Json.OrderedItems items) :
    toJsonItems path index (renderedItems text items) = .ok items := by
  match items with
  | [] => rfl
  | v :: rest =>
    rw [renderedItems, toJsonItems, toJson_rendered text _ v h.1,
      toJsonItems_rendered text path _ rest h.2]
    rfl

/-- Rendered fields are read as themselves. -/
theorem toJsonEntries_rendered (text : Json → Option String) (path : Path) (first : Bool)
    (fields : List (String × Json)) (h : Json.OrderedFields fields) :
    toJsonEntries path first (renderedFields text fields) = .ok fields := by
  match fields with
  | [] => rfl
  | (name, v) :: rest =>
    rw [renderedFields, toJsonEntries, toJson_rendered text _ v h.1,
      toJsonEntries_rendered text path false rest h.2]
    rfl

end

/-! ## Depth -/

mutual

/-- How deep collections are nested. -/
def depth : Document → Nat
  | list items => 1 + depthItems items
  | table entries => 1 + depthEntries entries
  | marked _ part => depth part
  | _ => 0

def depthItems : List Document → Nat
  | [] => 0
  | d :: rest => max (depth d) (depthItems rest)

def depthEntries : List (Option String × Document × Document) → Nat
  | [] => 0
  | (_, _, d) :: rest => max (depth d) (depthEntries rest)

end

mutual

/-- A value that is read in place fits into the depth of the part it is read from. -/
theorem fits_toJson (d : Document) {path : Path} {v : Json} (h : d.toJson path = .ok v) :
    v.Fits d.depth := by
  match d with
  | scalar s =>
    unfold toJson at h
    split at h
    · exact Content.fits_toJson _ (exists_of_placed_eq_ok h)
    · cases h
  | list items =>
    obtain ⟨vs, hvs, hv⟩ := exists_of_bind_eq_ok h
    obtain rfl := Except.ok.inj hv
    have hitems := fits_toJsonItems items hvs
    rw [depth, Nat.add_comm]
    exact Json.fits_arr hitems
  | table entries =>
    obtain ⟨es, hes, hv⟩ := exists_of_bind_eq_ok h
    obtain rfl := Except.ok.inj hv
    have hentries := fits_toJsonEntries entries hes
    rw [depth, Nat.add_comm]
    exact Json.fits_ofEntries hentries
  | marked _ _ => cases h
  | unreadable => cases h

theorem fits_toJsonItems (items : List Document) {path : Path}
    {index : Nat} {vs : List Json} (h : toJsonItems path index items = .ok vs) :
    ∀ v ∈ vs, v.Fits (depthItems items) := by
  match items with
  | [] =>
    obtain rfl := Except.ok.inj h
    exact fun v hv => absurd hv List.not_mem_nil
  | d :: rest =>
    obtain ⟨v, hv, h⟩ := exists_of_bind_eq_ok h
    obtain ⟨more, hmore, h⟩ := exists_of_bind_eq_ok h
    obtain rfl := Except.ok.inj h
    rw [List.forall_mem_cons]
    refine ⟨(fits_toJson d hv).mono (Nat.le_max_left _ _), fun w hw => ?_⟩
    exact (fits_toJsonItems rest hmore w hw).mono (Nat.le_max_right _ _)

theorem fits_toJsonEntries (entries : List (Option String × Document × Document))
    {path : Path} {first : Bool} {es : List (String × Json)}
    (h : toJsonEntries path first entries = .ok es) :
    ∀ e ∈ es, e.2.Fits (depthEntries entries) := by
  match entries with
  | [] =>
    obtain rfl := Except.ok.inj h
    exact fun v hv => absurd hv List.not_mem_nil
  | (label, key, d) :: rest =>
    obtain ⟨name, h⟩ : ∃ name : String, (do
        let v ← d.toJson (path.part label)
        let more ← toJsonEntries path false rest
        pure ((name, v) :: more)) = Except.ok es := by
      unfold toJsonEntries at h
      dsimp only at h
      split at h
      · exact ⟨_, h⟩
      · obtain ⟨name, -, h⟩ := exists_of_bind_eq_ok h
        exact ⟨name, h⟩
    obtain ⟨v, hv, h⟩ := exists_of_bind_eq_ok h
    obtain ⟨more, hmore, h⟩ := exists_of_bind_eq_ok h
    obtain rfl := Except.ok.inj h
    rw [List.forall_mem_cons]
    refine ⟨(fits_toJson d hv).mono (Nat.le_max_left _ _), fun e he => ?_⟩
    exact (fits_toJsonEntries rest hmore e he).mono (Nat.le_max_right _ _)

end

mutual

/-- Data is nested as deep as the part it is held back from. -/
theorem depth_toContent (d : Document) {path : Path} {c : Content}
    (h : d.toContent path = .ok c) :
    c.depth ≤ d.depth := by
  match d with
  | scalar s =>
    obtain ⟨a, -, rfl⟩ := exists_of_map_eq_ok h
    exact Nat.le_refl _
  | list items =>
    obtain ⟨cs, hcs, hc⟩ := exists_of_bind_eq_ok h
    obtain rfl := Except.ok.inj hc
    exact Nat.add_le_add_left (depth_toContentItems items hcs) 1
  | table entries =>
    obtain ⟨es, hes, hc⟩ := exists_of_bind_eq_ok h
    obtain rfl := Except.ok.inj hc
    exact Nat.add_le_add_left (depth_toContentEntries entries hes) 1
  | marked _ _ => cases h
  | unreadable => cases h

theorem depth_toContentItems (items : List Document) {path : Path} {index : Nat}
    {cs : List Content} (h : toContentItems path index items = .ok cs) :
    Content.depthItems cs ≤ depthItems items := by
  match items with
  | [] =>
    obtain rfl := Except.ok.inj h
    exact Nat.le_refl _
  | d :: rest =>
    obtain ⟨c, hc, h⟩ := exists_of_bind_eq_ok h
    obtain ⟨more, hmore, h⟩ := exists_of_bind_eq_ok h
    obtain rfl := Except.ok.inj h
    have hfirst := depth_toContent d hc
    have hrest := depth_toContentItems rest hmore
    rw [Content.depthItems, depthItems]
    omega

theorem depth_toContentEntries (entries : List (Option String × Document × Document))
    {path : Path} {es : List (Content × Content)}
    (h : toContentEntries path entries = .ok es) :
    Content.depthEntries es ≤ depthEntries entries := by
  match entries with
  | [] =>
    obtain rfl := Except.ok.inj h
    exact Nat.le_refl _
  | (label, key, d) :: rest =>
    obtain ⟨k, -, h⟩ := exists_of_bind_eq_ok h
    obtain ⟨c, hc, h⟩ := exists_of_bind_eq_ok h
    obtain ⟨more, hmore, h⟩ := exists_of_bind_eq_ok h
    obtain rfl := Except.ok.inj h
    have hfirst := depth_toContent d hc
    have hrest := depth_toContentEntries rest hmore
    rw [Content.depthEntries, depthEntries]
    omega

end

end Document

end Workplan
