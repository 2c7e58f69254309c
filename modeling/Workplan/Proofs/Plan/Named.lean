import Mathlib.Tactic.Lemma
import Workplan.Plan.Reading
import Workplan.Proofs.Document.Mappings

/-!
# Executors and steps are read by name

What comes of a mapping that is read as an executor or as a step, said by what its names
stand for and not by a walk through its entries: the kind is read from the entry of its
tag, wherever that stands, and what the kind makes of the other entries is the result
(`ExecutorSpec.ofContent_toOption`, `ExecutorSpec.ofDocument_toOption`,
`StepBody.splitEntries_eq`).  In a step, the description and the handlers are read in
place, and all other entries are held back (`StepSpec.ofDocument_toOption`).
-/

namespace Workplan

open Document (Path Failure Mapping Entry)

/-! ## Executors -/

namespace ExecutorSpec

/-- An entry that is not the type of an executor is put aside. -/
lemma splitEntries_held (kind : Option ExecutorKind) (others : List (Content × Content))
    (e : String × Entry) (rest : List (Content × Content)) (h : e.1 ≠ "type") :
    splitEntries kind others (Entry.held e :: rest) = splitEntries kind
      (Entry.held e :: others) rest := by
  rw [splitEntries]
  intro value heq
  exact h (Atom.text.inj (Content.atom.inj (Prod.mk.inj heq).1))

lemma splitEntriesInPlace_held (path : Path) (kind : Option ExecutorKind)
    (others : List (Content × Content)) (e : String × Entry)
    (rest : List (Option String × Document × Document)) (h : e.1 ≠ "type") :
    splitEntriesInPlace path kind others (Entry.inPlace e :: rest) =
      splitEntriesInPlace path kind (Entry.held e :: others) rest := by
  have hkey : (Entry.inPlace e).2.1.toContent path = .ok (.text e.1) := rfl
  have hpart : (Entry.inPlace e).2.2.toContent (path.part (Entry.inPlace e).1) =
      .ok e.2.content := e.2.holds _
  rw [splitEntriesInPlace, hkey]
  dsimp only [bind, Except.bind]
  split
  · next heq => exact absurd (Atom.text.inj (Content.atom.inj heq)) h
  · rw [hpart]
    rfl

/-- A held-back executor is what its kind makes of its other entries. -/
theorem ofContent_toOption (m : Mapping) :
    (ofContent m.content).toOption = (m.fields.lookup "type").bind fun x =>
      (x.content.readVariant ExecutorKind.named).toOption.bind fun kind =>
        (ofParameters kind
          (.named
            ((m.fields.filter fun e => e.1 ≠ "type").map Entry.held))).toOption := by
  have hsplit := @split_eq _ _ _ _ _ _ _ _ splitEntries_held
    (fun x : Entry => x.content.readVariant ExecutorKind.named) _ (fun _ _ => rfl)
      (fun _ => rfl)
    (fun _ _ _ => rfl) _ m.distinct
  rw [Mapping.content, ofContent, hsplit]
  cases m.fields.lookup "type" with
  | none => rfl
  | some x =>
    dsimp only [Option.elim_some, Option.bind_some]
    cases x.content.readVariant ExecutorKind.named <;> rfl

/-- An executor in place is what its kind makes of its other entries. -/
theorem ofDocument_toOption (m : Mapping) (path : Path) :
    (ofDocument path m.document).toOption = (m.fields.lookup "type").bind fun x =>
      (readKind (path.part x.label) x.part).toOption.bind fun kind =>
        (ofParameters kind
          (.named
            ((m.fields.filter fun e => e.1 ≠ "type").map Entry.held))).toOption := by
  have hsplit := @split_eq _ _ _ _ _ _ _ _ (splitEntriesInPlace_held path)
    (fun x : Entry => readKind (path.part x.label) x.part) _ (fun _ _ => rfl) (fun _ => rfl)
    (fun _ _ _ => rfl) _ m.distinct
  rw [Mapping.document, ofDocument]
  dsimp only
  rw [hsplit]
  cases m.fields.lookup "type" with
  | none => rfl
  | some x =>
    dsimp only [Option.elim_some, Option.bind_some]
    cases readKind (path.part x.label) x.part with
    | error e => rfl
    | ok kind =>
      dsimp only [Except.map, bind, Except.bind]
      split <;> simp_all [Except.toOption]

end ExecutorSpec

/-! ## Steps -/

namespace StepBody

/-- An entry that is not the kind of a step is put aside. -/
lemma splitEntries_held (kind : Option StepKind) (others : List (Content × Content))
    (e : String × Entry) (rest : List (Content × Content)) (h : e.1 ≠ "kind") :
    splitEntries kind others (Entry.held e :: rest) = splitEntries kind
      (Entry.held e :: others) rest := by
  rw [splitEntries]
  intro value heq
  exact h (Atom.text.inj (Content.atom.inj (Prod.mk.inj heq).1))

/-- Held-back entries are split into the kind of a step and the others, wherever the
kind stands. -/
theorem splitEntries_eq {fields : List (String × Entry)}
    (hdistinct : Fields.Distinct fields) :
    splitEntries none [] (fields.map Entry.held) =
      (fields.lookup "kind").elim (.error (.missingField "kind")) fun x =>
        (x.content.readVariant StepKind.named).map fun kind =>
          (kind, (fields.filter fun e => e.1 ≠ "kind").map Entry.held) :=
  split_eq splitEntries_held (fun _ _ => rfl) (fun _ => rfl) (fun _ _ _ => rfl) hdistinct

end StepBody

namespace StepSpec

/-- Whether the entries of a name are held back. -/
def isHeld (name : String) : Bool :=
  name ∉ ["description", "on_success", "on_fail"]

/-- The reader of a description. -/
def descriptionAt (place : Path) (d : Document) : Except Failure (Option String) :=
  Document.readOption (Document.readText place) place d

/-- The reader of a handler. -/
def handlerAt (place : Path) (d : Document) : Except Failure (Option ExecutorSpec) :=
  Document.readOption (ExecutorSpec.ofDocument place) place d

/-- What is read of a field, if the field is there; nothing at all if it cannot be read. -/
def readAt {α : Type} (read : Path → Document → Except Failure α) (path : Path) :
    Option Entry → Option (Option α)
  | none => some none
  | some x => (read (path.part x.label) x.part).toOption.map some

section

variable {path : Path} {acc : Partial} {x : Entry}
  {rest : List (Option String × Document × Document)}

/-- An entry that is no field of every step is held back. -/
lemma readEntriesInto_other {e : String × Entry} (h : isHeld e.1 = true) :
    readEntriesInto path acc (Entry.inPlace e :: rest) =
      readEntriesInto path { acc with held := Entry.held e :: acc.held } rest := by
  have hne : e.1 ≠ "description" ∧ e.1 ≠ "on_success" ∧ e.1 ≠ "on_fail" := by
    simpa [isHeld] using h
  have hpart : (Entry.inPlace e).2.2.toContent (path.part (Entry.inPlace e).1) =
      .ok e.2.content := e.2.holds _
  rw [readEntriesInto, Entry.readName_inPlace, ok_bind]
  dsimp only
  rw [if_neg hne.1, if_neg hne.2.1, if_neg hne.2.2, hpart]
  rfl

lemma readEntriesInto_description_eq (h : acc.description = none) :
    readEntriesInto path acc (Entry.inPlace ("description", x) :: rest) =
      (descriptionAt (path.part x.label) x.part).bind fun v =>
        readEntriesInto path { acc with description := some v } rest := by
  show (if acc.description.isSome then _ else _) = _
  rw [h]
  rfl

lemma readEntriesInto_onSuccess_eq (h : acc.onSuccess = none) :
    readEntriesInto path acc (Entry.inPlace ("on_success", x) :: rest) =
      (handlerAt (path.part x.label) x.part).bind fun v =>
        readEntriesInto path { acc with onSuccess := some v } rest := by
  show (if acc.onSuccess.isSome then _ else _) = _
  rw [h]
  rfl

lemma readEntriesInto_onFail_eq (h : acc.onFail = none) :
    readEntriesInto path acc (Entry.inPlace ("on_fail", x) :: rest) =
      (handlerAt (path.part x.label) x.part).bind fun v =>
        readEntriesInto path { acc with onFail := some v } rest := by
  show (if acc.onFail.isSome then _ else _) = _
  rw [h]
  rfl

end

/-- To read a field that is there and to go on is to go on with what is read of it. -/
lemma toOption_bind_readAt {α : Type} {read : Path → Document → Except Failure α}
    {path : Path} {x : Entry} {next : α → Except Failure Partial}
    {later : Option α → Option Partial} (h : ∀ v, (next v).toOption = later (some v)) :
    ((read (path.part x.label) x.part).bind next).toOption =
      (readAt read path (some x)).bind later := by
  rw [readAt]
  cases read (path.part x.label) x.part with
  | error e => rfl
  | ok v => exact h v

/-- The entries of a step are read by name: description and handlers in place, and all
others are held back. -/
lemma readEntriesInto_toOption {path : Path} {fields : List (String × Entry)}
    (hdistinct : Fields.Distinct fields) {acc : Partial}
    (hd : acc.description = none ∨ fields.lookup "description" = none)
    (hs : acc.onSuccess = none ∨ fields.lookup "on_success" = none)
    (hf : acc.onFail = none ∨ fields.lookup "on_fail" = none) :
    (readEntriesInto path acc (fields.map Entry.inPlace)).toOption =
      (readAt descriptionAt path (fields.lookup "description")).bind fun d =>
      (readAt handlerAt path (fields.lookup "on_success")).bind fun s =>
      (readAt handlerAt path (fields.lookup "on_fail")).map fun f =>
        ⟨d.or acc.description, s.or acc.onSuccess, f.or acc.onFail,
          acc.held.reverse ++ (fields.filter fun e => isHeld e.1).map Entry.held⟩ := by
  induction fields generalizing acc with
  | nil => simp [readEntriesInto, readAt, Except.toOption]
  | cons e rest ih =>
    obtain ⟨name, x⟩ := e
    obtain ⟨hfresh, hrest⟩ := Fields.distinct_cons.mp hdistinct
    have hnone : rest.lookup name = none := Fields.lookup_eq_none_of_fresh hfresh
    have hother : ∀ other, name ≠ other →
        ((name, x) :: rest).lookup other = rest.lookup other := fun other hne =>
      Fields.lookup_cons_of_ne rest hne
    rw [List.map_cons, List.filter_cons]
    by_cases hheld : isHeld name = true
    · have hne : name ≠ "description" ∧ name ≠ "on_success" ∧ name ≠ "on_fail" := by
        simpa [isHeld] using hheld
      rw [hother _ hne.1] at hd ⊢
      rw [hother _ hne.2.1] at hs ⊢
      rw [hother _ hne.2.2] at hf ⊢
      have hlater :=
        @ih hrest { acc with held := Entry.held (name, x) :: acc.held } hd hs hf
      rw [readEntriesInto_other hheld, hlater, if_pos hheld, List.map_cons,
        List.reverse_cons]
      simp only [List.append_assoc, List.singleton_append]
    · rw [if_neg hheld]
      have hcases : name = "description" ∨ name = "on_success" ∨ name = "on_fail" :=
        Decidable.byContradiction fun hnot => hheld (by simpa [isHeld] using hnot)
      -- A field that is read in place is there for the first time and for the last.
      obtain rfl | rfl | rfl := hcases
      · rw [hother "on_success" (by decide)] at hs ⊢
        rw [hother "on_fail" (by decide)] at hf ⊢
        rw [Fields.lookup_cons_self] at hd ⊢
        have hfree : acc.description = none := hd.resolve_right (Option.some_ne_none x)
        rw [readEntriesInto_description_eq hfree]
        refine toOption_bind_readAt fun v => ?_
        have hlater := @ih hrest { acc with description := some v } (.inr hnone) hs hf
        rw [hnone, readAt, Option.bind_some] at hlater
        rw [hfree]
        exact hlater
      · rw [hother "description" (by decide)] at hd ⊢
        rw [hother "on_fail" (by decide)] at hf ⊢
        rw [Fields.lookup_cons_self] at hs ⊢
        have hfree : acc.onSuccess = none := hs.resolve_right (Option.some_ne_none x)
        rw [readEntriesInto_onSuccess_eq hfree, Option.bind_comm]
        refine toOption_bind_readAt fun v => ?_
        have hlater := @ih hrest { acc with onSuccess := some v } hd (.inr hnone) hf
        rw [Option.bind_comm, hnone, readAt, Option.bind_some] at hlater
        rw [hfree]
        exact hlater
      · rw [hother "description" (by decide)] at hd ⊢
        rw [hother "on_success" (by decide)] at hs ⊢
        rw [Fields.lookup_cons_self] at hf ⊢
        have hfree : acc.onFail = none := hf.resolve_right (Option.some_ne_none x)
        simp only [readEntriesInto_onFail_eq hfree, Option.map_eq_bind,
          Option.bind_comm _ (readAt handlerAt path (some x))]
        refine toOption_bind_readAt fun v => ?_
        have hlater := @ih hrest { acc with onFail := some v } hd hs (.inr hnone)
        rw [hnone, readAt] at hlater
        rw [hfree]
        exact hlater

/-- A step is what is read in place with what is made of the entries held back. -/
theorem ofDocument_toOption (m : Mapping) (path : Path) :
    (ofDocument path m.document).toOption =
      (readAt descriptionAt path (m.fields.lookup "description")).bind fun d =>
      (readAt handlerAt path (m.fields.lookup "on_success")).bind fun s =>
      (readAt handlerAt path (m.fields.lookup "on_fail")).bind fun f =>
      (StepBody.ofContent
        ((m.fields.filter fun e => isHeld e.1).map Entry.held)).toOption.map fun body =>
        ⟨d.getD none, s.getD none, f.getD none, body⟩ := by
  have hparts := @readEntriesInto_toOption path m.fields m.distinct ⟨none, none, none, []⟩
    (.inl rfl) (.inl rfl) (.inl rfl)
  have hdocument : (ofDocument path m.document).toOption =
      (readEntriesInto path ⟨none, none, none, []⟩
        (m.fields.map Entry.inPlace)).toOption.bind fun parts =>
        (StepBody.ofContent parts.held).toOption.map fun body =>
          ⟨parts.description.getD none, parts.onSuccess.getD none, parts.onFail.getD none,
            body⟩ := by
    have hentries : Document.readEntries path "struct StepSpec" m.document =
        .ok (m.fields.map Entry.inPlace) := rfl
    unfold ofDocument
    rw [hentries]
    simp only [bind, Except.bind]
    cases readEntriesInto path ⟨none, none, none, []⟩ (m.fields.map Entry.inPlace) with
    | error e => rcases e with ⟨_ | place, cause⟩ <;> rfl
    | ok parts =>
      show _ = (StepBody.ofContent parts.held).toOption.map _
      dsimp only
      cases StepBody.ofContent parts.held <;> rfl
  rw [hdocument, hparts]
  simp only [Option.bind_assoc, Option.bind_map, Function.comp_def, Option.or_none,
    List.reverse_nil, List.nil_append]

end StepSpec

end Workplan
