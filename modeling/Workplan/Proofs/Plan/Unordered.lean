import Mathlib.Tactic.Lemma
import Workplan.Proofs.Plan.Named

/-!
# Order and strange entries do not matter

Some entries of a step are read as they come, and the rest are held back until its kind is
known; an executor is read in one way where it stands as a handler, and in another way
where it is a part of something that has been held back.  In all these ways a mapping is
read by its names: whether it can be read, and as what, depends only on the entries that
it has under the names that count for it (`decoding_by_name`).  Their order does not
matter, the name of the kind may come last, and entries under other names may be added or
removed, also under names that count for another kind.

What is compared is the reading and not the failure: which of several faults is reported
does depend on the order.
-/

namespace Workplan

open Document (Path Failure Mapping Entry)

/-! ## The names that count -/

/-- The names that count for a kind of step. -/
def StepKind.fieldNames : StepKind → List String
  | .prompt => ["text"]
  | .sequence | .parallel => ["executors"]
  | .iterate => ["items", "key", "agent"]

/-- The names that count for a kind of executor. -/
def ExecutorKind.fieldNames (k : ExecutorKind) : List String :=
  (ExecutorSpec.readers k).map Prod.fst

namespace Document.Mapping

/-- The kind of step that a mapping names, if it names one. -/
def stepKind? (m : Mapping) : Option StepKind :=
  (m.fields.lookup "kind").bind fun x => (x.content.readVariant StepKind.named).toOption

/-- The names that count for a step. -/
def stepNames (m : Mapping) : List String :=
  ["description", "on_success", "on_fail", "kind"] ++ m.stepKind?.elim
    [] StepKind.fieldNames

/-- The kind of executor that a mapping names where it is read in place. -/
def handlerKind? (path : Path) (m : Mapping) : Option ExecutorKind :=
  (m.fields.lookup "type").bind fun x =>
    (ExecutorSpec.readKind (path.part x.label) x.part).toOption

/-- The kind of executor that a mapping names where it has been held back. -/
def executorKind? (m : Mapping) : Option ExecutorKind :=
  (m.fields.lookup "type").bind fun x => (x.content.readVariant ExecutorKind.named).toOption

/-- The names that count for an executor of a kind. -/
def executorNames (kind : Option ExecutorKind) : List String :=
  "type" :: kind.elim [] ExecutorKind.fieldNames

end Document.Mapping

/-- What is made of the kind under a tag and of the other entries depends on the names
that count for the kind. -/
lemma tagged_congr {κ β : Type} {tag : String} {readTag : Entry → Option κ}
    {names : κ → List String} {make : κ → List (String × Entry) → Option β}
    {fields fields' : List (String × Entry)}
    (hmake : ∀ kind {fields fields'}, Fields.Distinct fields → Fields.Distinct fields' →
      Fields.AgreeOn (names kind) fields fields' → make kind fields = make kind fields')
    (hdistinct : Fields.Distinct fields) (hdistinct' : Fields.Distinct fields')
    (h : Fields.AgreeOn
      (tag :: ((fields.lookup tag).bind readTag).elim [] names) fields fields') :
    ((fields.lookup tag).bind fun x =>
        (readTag x).bind fun kind => make kind (fields.filter fun e => e.1 ≠ tag)) =
      (fields'.lookup tag).bind fun x =>
        (readTag x).bind fun kind => make kind (fields'.filter fun e => e.1 ≠ tag) := by
  rw [← h.lookup hdistinct hdistinct' List.mem_cons_self]
  cases hx : fields.lookup tag with
  | none => rfl
  | some x =>
    rw [Option.bind_some, Option.bind_some]
    cases hkind : readTag x with
    | none => rfl
    | some kind =>
      rw [hx, Option.bind_some, hkind] at h
      exact hmake kind (hdistinct.filter _) (hdistinct'.filter _)
        ((h.mono (List.subset_cons_self _ _)).filter _)

/-! ## Executors -/

namespace ExecutorSpec

/-- Parameters that agree on the names that count for the kind give the same executor. -/
lemma ofParameters_congr (kind : ExecutorKind) {fields fields' : List (String × Entry)}
    (hdistinct : Fields.Distinct fields) (hdistinct' : Fields.Distinct fields')
    (h : Fields.AgreeOn kind.fieldNames fields fields') :
    (ofParameters kind (.named (fields.map Entry.held))).toOption =
      (ofParameters kind (.named (fields'.map Entry.held))).toOption := by
  have hread : Option.Rel (fun out out' => ∀ name, out.lookup name = out'.lookup name)
      (readParameters kind (.named (fields.map Entry.held))).toOption
      (readParameters kind (.named (fields'.map Entry.held))).toOption := by
    unfold readParameters
    cases (readers kind).isEmpty with
    | true => exact .some fun _ => rfl
    | false => exact Content.readFields_rel hdistinct hdistinct' h
  refine toOption_bind_congr hread fun out out' hlookup => ?_
  simp only [hlookup, missing, checkLength]

variable {m m' : Mapping}

/-- Held-back executors that agree on the names that count are read alike. -/
lemma ofContent_congr (h : m.AgreesOn m' (Mapping.executorNames m.executorKind?)) :
    (ofContent m.content).toOption = (ofContent m'.content).toOption := by
  rw [ofContent_toOption, ofContent_toOption]
  exact tagged_congr (ofParameters_congr) m.distinct m'.distinct h

/-- Executors in place that agree on the names that count are read alike. -/
lemma ofDocument_congr {path : Path}
    (h : m.AgreesOn m' (Mapping.executorNames (m.handlerKind? path))) :
    (ofDocument path m.document).toOption = (ofDocument path m'.document).toOption := by
  rw [ofDocument_toOption, ofDocument_toOption]
  exact tagged_congr (ofParameters_congr) m.distinct m'.distinct h

end ExecutorSpec

/-! ## Steps -/

namespace StepBody

/-- Held-back entries of a body that agree on the names that count are read alike. -/
lemma ofContent_congr {fields fields' : List (String × Entry)}
    (hdistinct : Fields.Distinct fields) (hdistinct' : Fields.Distinct fields')
    (h : Fields.AgreeOn ("kind" :: ((fields.lookup "kind").bind fun x =>
      (x.content.readVariant StepKind.named).toOption).elim
        [] StepKind.fieldNames) fields fields') :
    (ofContent (fields.map Entry.held)).toOption =
      (ofContent (fields'.map Entry.held)).toOption := by
  rw [ofContent, ofContent, splitEntries_eq hdistinct, splitEntries_eq hdistinct',
    ← h.lookup hdistinct hdistinct' List.mem_cons_self]
  cases hx : fields.lookup "kind" with
  | none => rfl
  | some x =>
    dsimp only [Option.elim_some]
    cases hkind : x.content.readVariant StepKind.named with
    | error e => rfl
    | ok kind =>
      have hothers : Fields.AgreeOn kind.fieldNames (fields.filter fun e => e.1 ≠ "kind")
          (fields'.filter fun e => e.1 ≠ "kind") := by
        rw [hx, Option.bind_some, hkind] at h
        exact (h.mono (List.subset_cons_self _ _)).filter _
      have hread : ∀ {σ : Type}
          (readers : List (String × (Content → Except Document.Cause σ))),
          readers.map Prod.fst = kind.fieldNames →
          Option.Rel (fun out out' => ∀ name, out.lookup name = out'.lookup name)
            (Content.readFields readers []
              ((fields.filter fun e => e.1 ≠ "kind").map Entry.held)).toOption
            (Content.readFields readers []
              ((fields'.filter fun e => e.1 ≠ "kind").map Entry.held)).toOption :=
        fun readers hnames => Content.readFields_rel (hdistinct.filter _)
          (hdistinct'.filter _) (hnames ▸ hothers)
      rw [map_ok, map_ok, ok_bind, ok_bind]
      -- In each kind, what is made of the fields is made of what has been read under the
      -- names of the kind.
      cases kind <;>
        exact toOption_bind_congr (hread _ rfl) fun out out' hlookup => by
          simp only [hlookup]

end StepBody

namespace StepSpec

/-- Steps that agree on the names that count are read alike. -/
lemma ofDocument_congr {m m' : Mapping} {path : Path} (h : m.AgreesOn m' m.stepNames) :
    (ofDocument path m.document).toOption = (ofDocument path m'.document).toOption := by
  rw [ofDocument_toOption, ofDocument_toOption, h.lookup (by simp [Mapping.stepNames]),
    h.lookup (by simp [Mapping.stepNames]), h.lookup (by simp [Mapping.stepNames])]
  have hheld : Fields.AgreeOn m.stepNames (m.fields.filter fun e => isHeld e.1)
      (m'.fields.filter fun e => isHeld e.1) :=
    Fields.AgreeOn.filter h _
  have hkind : (m.fields.filter fun e => isHeld e.1).lookup "kind" =
      m.fields.lookup "kind" :=
    Fields.lookup_filter (by decide) m.fields
  have hnames : "kind" :: m.stepKind?.elim [] StepKind.fieldNames ⊆ m.stepNames :=
    List.cons_subset.mpr ⟨by simp [Mapping.stepNames], List.subset_append_right _ _⟩
  rw [StepBody.ofContent_congr (m.distinct.filter _) (m'.distinct.filter _)]
  rw [hkind]
  exact hheld.mono hnames

end StepSpec

/-! ## Plans -/

namespace Plan

lemma mem_fieldNames {name : String} {path : Path} {d : Document}
    (h : (readField name path d).isSome) :
    name ∈ fieldNames := by
  unfold readField at h
  split at h
  · decide
  · decide
  · decide
  · decide
  · cases h

/-- Plans that agree on the names that count are read alike. -/
lemma ofDocument_congr {m m' : Mapping} (dialect : Document.Dialect)
    (h : m.AgreesOn m' fieldNames) :
    (ofDocument dialect m.document).toOption =
      (ofDocument dialect m'.document).toOption := by
  have htable : ∀ m : Mapping, ofDocument dialect m.document =
      (Document.readFields readField [] [] (m.fields.map Entry.inPlace)).bind
        (ofFields (.missingField "name")) := by
    intro m
    cases dialect <;> rfl
  rw [htable, htable]
  refine toOption_bind_congr
    (Document.readFields_rel (fun _ _ _ => mem_fieldNames) m.distinct m'.distinct h)
    fun out out' hlookup => ?_
  simp only [ofFields, hlookup]

end Plan

/-! ## All readers -/

/-- Of two mappings that have the same entries under the names that count, either both can
be read, as the same, or neither: as steps, where the names that count are those of the
description, the handlers, the kind and the fields of that kind; as executors, in place
and held back, where they are the type and the parameters of that type; and as plans.  The
entries may stand in any order, and each mapping may have any others. -/
theorem decoding_by_name (m m' : Mapping) (path : Path) (dialect : Document.Dialect) :
    (m.AgreesOn m' m.stepNames →
      (StepSpec.ofDocument path m.document).toOption =
        (StepSpec.ofDocument path m'.document).toOption) ∧
    (m.AgreesOn m' (Mapping.executorNames (m.handlerKind? path)) →
      (ExecutorSpec.ofDocument path m.document).toOption =
        (ExecutorSpec.ofDocument path m'.document).toOption) ∧
    (m.AgreesOn m' (Mapping.executorNames m.executorKind?) →
      (ExecutorSpec.ofContent m.content).toOption =
        (ExecutorSpec.ofContent m'.content).toOption) ∧
    (m.AgreesOn m' Plan.fieldNames →
      (Plan.ofDocument dialect m.document).toOption =
        (Plan.ofDocument dialect m'.document).toOption) :=
  ⟨StepSpec.ofDocument_congr, ExecutorSpec.ofDocument_congr, ExecutorSpec.ofContent_congr,
    Plan.ofDocument_congr dialect⟩

/-- The fields of a sequence step with one executor, its kind last. -/
def sequenceFields : List (String × Json) :=
  [("executors", .arr [.obj [("key", .str "k"), ("type", .str "store_set")]]),
    ("kind", .str "sequence")]

/-- Fields of other steps. -/
def strayFields : List (String × Json) :=
  [("key", .str "elsewhere"), ("agent", .obj []), ("name", .int (.ofWord 7))]

theorem decoding_by_name_sequence :
    let m := Mapping.ofJson (fun _ => none) (strayFields ++ sequenceFields).reverse
      (by decide)
    let m' := Mapping.ofJson (fun _ => none) sequenceFields (by decide)
    m.AgreesOn m' m.stepNames ∧
      (StepSpec.ofDocument [] m.document).toOption =
        (StepSpec.ofDocument [] m'.document).toOption ∧
      StepSpec.ofDocument [] m'.document = .ok ⟨none, none, none,
        .sequence [.storeSet "k"]⟩ := by
  intro m m'
  have hagrees : m.AgreesOn m' m.stepNames :=
    Mapping.agreesOn_ofJson _ _ _ (List.reverse_perm _) (by decide)
  exact ⟨hagrees, (decoding_by_name m m' [] .yaml).1 hagrees, rfl⟩

end Workplan
