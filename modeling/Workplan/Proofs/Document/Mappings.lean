import Mathlib.Tactic.Lemma
import Workplan.Proofs.Document.Named

/-!
# Mappings

A *mapping* is a table with string keys, no two of which are the same, whose values can be
held back: every structured value can, in either notation, if it is not nested too deeply
(`Mapping.ofJson`).  A mapping may be read in place, as a document, or held back, as data.

Two mappings agree on some names if they have the same entries under these names
(`Mapping.AgreesOn`).  The order of the entries is left open, and so is everything under
other names.  Readers of records that know the names and no others cannot tell such
mappings apart (`Content.readFields_rel`, `Document.readFields_rel`).
-/

namespace Workplan

open Document (Path Failure Cause)

/-! ## Names on which entries agree -/

/-- The same entries under some names, in whatever order. -/
def Fields.AgreeOn {α : Type} (names : List String) (fields fields' : List (String × α)) :
    Prop :=
  ∀ e, e.1 ∈ names → (e ∈ fields ↔ e ∈ fields')

namespace Fields

variable {α : Type} {names : List String} {fields fields' : List (String × α)}

theorem AgreeOn.mono {names' : List String} (h : AgreeOn names fields fields')
    (hsub : names' ⊆ names) :
    AgreeOn names' fields fields' :=
  fun e he => h e (hsub he)

theorem AgreeOn.filter (h : AgreeOn names fields fields') (keep : String × α → Bool) :
    AgreeOn names (fields.filter keep) (fields'.filter keep) := by
  intro e he
  rw [List.mem_filter, List.mem_filter, h e he]

/-- Entries agree if they are the same, in whatever order, but for some under
other names. -/
lemma agreeOn_of_perm {strays : List (String × α)} (h : fields.Perm (strays ++ fields'))
    (hstrays : ∀ e ∈ strays, e.1 ∉ names) : AgreeOn names fields fields' := by
  intro e he
  rw [h.mem_iff, List.mem_append]
  exact ⟨fun hmem => hmem.resolve_left fun hstray => hstrays e hstray he, .inr⟩

/-- Fields that agree on a name have the same value for it, if their names are distinct. -/
theorem AgreeOn.lookup (h : AgreeOn names fields fields') (hdistinct : Distinct fields)
    (hdistinct' : Distinct fields') {name : String} (hname : name ∈ names) :
    fields.lookup name = fields'.lookup name := by
  refine Option.ext fun value => ?_
  rw [lookup_eq_some_iff hdistinct, lookup_eq_some_iff hdistinct', h (name, value) hname]

end Fields

/-! ## Mappings -/

namespace Document

/-- An entry of a mapping apart from the text of its key: how the key can be read in other
ways, and the value with the data that it is held back as. -/
structure Entry where
  label : Option String
  absent : Except Cause Bool
  vacant : Bool
  part : Document
  content : Content
  holds : ∀ path, part.toContent path = .ok content

namespace Entry

/-- The entry as it stands in a document, behind its key. -/
def inPlace (e : String × Entry) : Option String × Document × Document :=
  (e.2.label, .scalar ⟨some e.1, e.2.absent, e.2.vacant, .ok (.text e.1)⟩, e.2.part)

/-- The entry as it is held back, behind its key. -/
def held (e : String × Entry) : Content × Content :=
  (.text e.1, e.2.content)

/-- A structured value as an entry, where the notation lends texts to atoms. -/
def ofJson (text : Json → Option String) (name : String) (v : Json) : Entry where
  label := some name
  absent := .ok false
  vacant := false
  part := rendered text v
  content := Content.ofJson v
  holds := fun path => toContent_rendered text path v

theorem readName_inPlace (path : Path) (e : String × Entry) :
    readName path (inPlace e).2.1 = .ok e.1 := rfl

end Entry

/-- A table with string keys, no two of which are the same, and with values that can
be held back. -/
structure Mapping where
  fields : List (String × Entry)
  distinct : Fields.Distinct fields

namespace Mapping

/-- The mapping as a document. -/
def document (m : Mapping) : Document :=
  .table (m.fields.map Entry.inPlace)

/-- The mapping as held-back data. -/
def content (m : Mapping) : Content :=
  .table (m.fields.map Entry.held)

/-- Two mappings have the same entries under some names, in whatever order. -/
def AgreesOn (m m' : Mapping) (names : List String) : Prop :=
  Fields.AgreeOn names m.fields m'.fields

/-- So do mappings. -/
theorem AgreesOn.lookup {m m' : Mapping} {names : List String} (h : m.AgreesOn m' names)
    {name : String} (hname : name ∈ names) : m.fields.lookup name = m'.fields.lookup name :=
  Fields.AgreeOn.lookup h m.distinct m'.distinct hname

/-- A structured value whose fields have different names, as a mapping. -/
def ofJson (text : Json → Option String) (fields : List (String × Json))
    (h : Fields.Distinct fields) : Mapping where
  fields := fields.map fun e => (e.1, Entry.ofJson text e.1 e.2)
  distinct := by
    unfold Fields.Distinct
    rw [List.map_map]
    exact h

/-- The document of the mapping is the document of the value. -/
theorem document_ofJson (text : Json → Option String) {fields : List (String × Json)}
    (h : Fields.Distinct fields) :
    (ofJson text fields h).document = rendered text (.obj fields) := by
  rw [rendered, renderedFields_eq, document, ofJson, List.map_map]
  rfl

/-- The data of the mapping is the data of the value. -/
theorem content_ofJson (text : Json → Option String) {fields : List (String × Json)}
    (h : Fields.Distinct fields) :
    (ofJson text fields h).content = Content.ofJson (.obj fields) := by
  rw [Content.ofJson, Content.ofJsonFields_eq, content, ofJson, List.map_map]
  rfl

/-- A name stands for the same in a value and in its mapping. -/
theorem lookup_ofJson (text : Json → Option String) {fields : List (String × Json)}
    (h : Fields.Distinct fields) (name : String) :
    (ofJson text fields h).fields.lookup name = (fields.lookup name).map
      (Entry.ofJson text name) := by
  show (fields.map fun e => (e.1, Entry.ofJson text e.1 e.2)).lookup name = _
  clear h
  induction fields with
  | nil => rfl
  | cons e rest ih =>
    obtain ⟨other, v⟩ := e
    by_cases hname : other = name
    · subst hname
      rw [List.map_cons, Fields.lookup_cons_self, Fields.lookup_cons_self, Option.map_some]
    · rw [List.map_cons, Fields.lookup_cons_of_ne _ hname,
        Fields.lookup_cons_of_ne _ hname, ih]

/-- What is held back of some of the fields. -/
theorem held_ofJson (text : Json → Option String) {fields : List (String × Json)}
    (h : Fields.Distinct fields) (keep : String → Bool) :
    ((ofJson text fields h).fields.filter fun e => keep e.1).map Entry.held =
      Content.ofJsonFields (fields.filter fun e => keep e.1) := by
  rw [ofJson, List.filter_map, List.map_map, Content.ofJsonFields_eq]
  rfl

/-- Values agree if their fields are the same, in whatever order, but for some under
other names. -/
theorem agreesOn_ofJson (text : Json → Option String)
    {fields fields' strays : List (String × Json)} {names : List String}
    (h : Fields.Distinct fields) (h' : Fields.Distinct fields')
    (hperm : fields.Perm (strays ++ fields')) (hstrays : ∀ e ∈ strays, e.1 ∉ names) :
    (ofJson text fields h).AgreesOn (ofJson text fields' h') names := by
  have hentries := hperm.map fun e => (e.1, Entry.ofJson text e.1 e.2)
  rw [List.map_append] at hentries
  refine Fields.agreeOn_of_perm hentries fun e he => ?_
  obtain ⟨stray, hstray, rfl⟩ := List.mem_map.mp he
  exact hstrays stray hstray

end Mapping

end Document

/-! ## Readers of records -/

section

variable {σ : Type} {fields fields' : List (String × Document.Entry)}

theorem ok_of_toOption {ε α : Type} {x : Except ε α} {a : α} (h : x.toOption = some a) :
    x = .ok a := by
  cases x with
  | error e => cases h
  | ok b => exact congrArg Except.ok (Option.some.inj h)

theorem ok_bind {ε α β : Type} (a : α) (f : α → Except ε β) : Except.ok a >>= f = f a := rfl

theorem map_ok {ε α β : Type} (a : α) (f : α → β) :
    (Except.ok a : Except ε α).map f = .ok (f a) := rfl

/-- What depends only on what has been read depends only on whether it has been
read, and what. -/
theorem toOption_bind_congr {ε α α' β : Type} {R : α → α' → Prop} {x : Except ε α}
    {x' : Except ε α'} {f : α → Except ε β} {f' : α' → Except ε β}
    (h : Option.Rel R x.toOption x'.toOption)
    (hf : ∀ a a', R a a' → (f a).toOption = (f' a').toOption) :
    (x.bind f).toOption = (x'.bind f').toOption := by
  cases x with
  | error e =>
    cases x' with
    | error e' => rfl
    | ok a' => cases h
  | ok a =>
    cases x' with
    | error e' => cases h
    | ok a' => cases h with | some hR => exact hf a a' hR

/-- Held-back records that agree on the names that are known are read alike. -/
theorem Content.readFields_rel {readers : List (String × (Content → Except Cause σ))}
    (hdistinct : Fields.Distinct fields) (hdistinct' : Fields.Distinct fields')
    (h : Fields.AgreeOn (readers.map Prod.fst) fields fields') :
    Option.Rel (fun out out' => ∀ name, out.lookup name = out'.lookup name)
      (readFields readers [] (fields.map Document.Entry.held)).toOption
      (readFields readers [] (fields'.map Document.Entry.held)).toOption := by
  have hread := fun {fields : List (String × Document.Entry)} hdistinct =>
    @readFields_eq _ _ readers Document.Entry.content fields [] hdistinct
      (fun _ _ => List.not_mem_nil)
  unfold Document.Entry.held
  rw [hread hdistinct, hread hdistinct']
  refine readNamed_rel hdistinct hdistinct' fun e he => h e ?_
  obtain ⟨read, hread⟩ := Option.isSome_iff_exists.mp ((Option.isSome_map ..).symm.trans he)
  exact List.mem_map_of_mem (mem_of_lookup_eq_some hread)

/-- Records in place that agree on the names that are known are read alike. -/
theorem Document.readFields_rel
    {read : String → Path → Document → Option (Except Failure σ)} {names : List String}
    {path : Path} (hknown : ∀ name path d, (read name path d).isSome → name ∈ names)
    (hdistinct : Fields.Distinct fields) (hdistinct' : Fields.Distinct fields')
    (h : Fields.AgreeOn names fields fields') :
    Option.Rel (fun out out' => ∀ name, out.lookup name = out'.lookup name)
      (readFields read path [] (fields.map Entry.inPlace)).toOption
      (readFields read path [] (fields'.map Entry.inPlace)).toOption := by
  rw [readFields_eq (Entry.readName_inPlace path) hdistinct fun _ _ => List.not_mem_nil,
    readFields_eq (Entry.readName_inPlace path) hdistinct' fun _ _ => List.not_mem_nil]
  exact readNamed_rel hdistinct hdistinct' fun e he => h e (hknown _ _ _ he)

end

end Workplan
