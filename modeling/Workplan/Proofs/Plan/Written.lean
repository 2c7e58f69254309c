import Mathlib.Data.List.Forall2
import Mathlib.Tactic.Lemma
import Workplan.Plan.Writing
import Workplan.Proofs.Plan.Named

/-!
# Written plans are read back

A value encodes a plan when its names stand for what the plan says, in whatever order they
come (`Plan.Encodes`).  A plan is read from every document of such a value
(`Plan.ofDocument_encoded`): a field that is not there comes back as the default that it
was left out for, and the entries of a step that are held back until its kind is known
come back through the data they are held back as.  A plan is written as a value that
encodes it (`Plan.encodes_written`).
-/

namespace Workplan

open Document (rendered renderedItems renderedFields Path Failure Mapping Entry)

/-- Encoded items are read when each of them is. -/
lemma mapM_encoded {α ε : Type} {read : Content → Except ε α} {R : α → Json → Prop}
    (hread : ∀ a v, R a v → read (Content.ofJson v) = .ok a) {as : List α}
    {vs : List Json} (h : List.Forall₂ R as vs) :
    (Content.ofJsonItems vs).mapM read = .ok as := by
  induction h with
  | nil => rfl
  | cons hhead _ ih =>
    rw [Content.ofJsonItems, List.mapM_cons, hread _ _ hhead, ih]
    rfl

/-! ## Executors -/

namespace ExecutorSpec

/-- The parameters of an executor, behind its kind. -/
def writtenParameters : ExecutorSpec → List (String × Json)
  | echo => []
  | template text => [("template", .str text)]
  | command program args => [("program", .str program), ("args", .ofTexts args)]
  | fail message => [("message", .str message)]
  | sleep ms => [("ms", .ofWord ms)]
  | storeSet key => [("key", .str key)]

/-- A written executor begins with its type. -/
theorem written_eq (e : ExecutorSpec) :
    e.written = .obj (("type", .str e.kind.name) :: e.writtenParameters) := by
  cases e <;> rfl

/-- Whether the names of some fields stand for what an executor says. -/
def SaidBy (e : ExecutorSpec) (fields : List (String × Json)) : Prop :=
  fields.lookup "type" = some (.str e.kind.name) ∧
    ∀ q ∈ e.writtenParameters, fields.lookup q.1 = some q.2

/-- Whether a value says what an executor says, in whatever order. -/
def Encodes (e : ExecutorSpec) (v : Json) : Prop :=
  ∃ fields, v.IsRecord fields ∧ e.SaidBy fields

/-- No parameter has the name of the kind. -/
lemma ne_type_of_mem {e : ExecutorSpec} {p : String × Json}
    (h : p ∈ e.writtenParameters) : p.1 ≠ "type" := by
  have hnames : ∀ n ∈ e.writtenParameters.map Prod.fst, n ≠ "type" := by
    cases e <;> simp [writtenParameters]
  exact hnames p.1 (List.mem_map_of_mem h)

/-- What is written says everything about the executor. -/
theorem encodes_written (e : ExecutorSpec) : e.Encodes e.written := by
  have hdistinct : Fields.Distinct
      (("type", Json.str e.kind.name) :: e.writtenParameters) := by
    cases e <;> simp [Fields.Distinct, writtenParameters]
  exact ⟨_, ⟨written_eq e, hdistinct⟩, Fields.lookup_cons_self _ _ _,
    fun q hq => Fields.lookup_of_mem hdistinct (List.mem_cons_of_mem _ hq)⟩

lemma lookup_named (k : ExecutorKind) : ExecutorKind.named.lookup k.name = some k := by
  cases k <;> decide

/-- The name of a kind of executor is read as that kind. -/
lemma readVariant_kind (k : ExecutorKind) :
    Content.readVariant ExecutorKind.named (Content.ofJson (.str k.name)) = .ok k := by
  rw [Content.ofJson, Content.text, Content.readVariant, lookup_named]

lemma asWord_ofWord (ms : UInt64) :
    asWord (Content.ofJson (.ofWord ms)) = .ok (.word ms) := by
  show (Document.wordOfAtom (.int (.ofWord ms))).map _ = _
  rw [Document.wordOfAtom, WordInt.toWord?_ofWord]
  rfl

lemma asTexts_ofTexts (ss : List String) :
    asTexts (Content.ofJson (.ofTexts ss)) = .ok (.texts ss) := by
  have hitems : List.Forall₂ (fun s v => v = Json.str s) ss (ss.map Json.str) := by
    rw [List.forall₂_map_right_iff, List.forall₂_same]
    exact fun _ _ => rfl
  have hread : (Content.ofJsonItems (ss.map Json.str)).mapM Content.readText = .ok ss :=
    mapM_encoded (fun _ _ h => by rw [h]; rfl) hitems
  show ((Content.ofJsonItems (ss.map Json.str)).mapM Content.readText).bind _ = _
  rw [hread]
  rfl

/-- All kinds with one parameter read it alike. -/
lemma readParameters_single {k : ExecutorKind} {fields : List (String × Json)}
    (hdistinct : Fields.Distinct fields) {name : String}
    {read : Content → Except Document.Cause Parameter} {v : Json} {s : Parameter}
    (hreaders : readers k = [(name, read)]) (hv : fields.lookup name = some v)
    (hs : read (Content.ofJson v) = .ok s) :
    ∃ values, readParameters k (.named (Content.ofJsonFields fields)) = .ok values ∧
      values.lookup name = some s := by
  rw [readParameters, hreaders]
  exact Content.readFields_single hdistinct hv hs

/-- A command reads its program and its arguments, whichever comes first. -/
lemma readParameters_command {fields : List (String × Json)}
    (hdistinct : Fields.Distinct fields) {program : String} {args : List String}
    (hprogram : fields.lookup "program" = some (.str program))
    (hargs : fields.lookup "args" = some (.ofTexts args)) :
    ∃ values, readParameters .command (.named (Content.ofJsonFields fields)) = .ok values ∧
      values.lookup "program" = some (.text program) ∧
      values.lookup "args" = some (.texts args) := by
  have hread : ∀ r ∈ readers .command, ∀ v, fields.lookup r.1 = some v →
      ∃ s, r.2 (Content.ofJson v) = .ok s := by
    rw [readers, List.forall_mem_cons, List.forall_mem_singleton]
    refine ⟨fun v hv => ?_, fun v hv => ?_⟩
    · obtain rfl := Option.some.inj (hprogram.symm.trans hv)
      exact ⟨_, rfl⟩
    · obtain rfl := Option.some.inj (hargs.symm.trans hv)
      exact ⟨_, asTexts_ofTexts args⟩
  obtain ⟨values, hvalues, hlookup⟩ :=
    Content.readFields_named hdistinct (fun _ _ => List.not_mem_nil) hread
  refine ⟨values, hvalues, ?_, ?_⟩
  · rw [hlookup, hprogram]
    rfl
  · rw [hlookup, hargs]
    show (asTexts (Content.ofJson (.ofTexts args))).toOption = _
    rw [asTexts_ofTexts]
    rfl

/-- The parameters of an executor give the executor, in whatever order they come. -/
lemma ofParameters_said {e : ExecutorSpec} {fields : List (String × Json)}
    (hdistinct : Fields.Distinct fields)
    (h : ∀ q ∈ e.writtenParameters, fields.lookup q.1 = some q.2) :
    ofParameters e.kind (.named (Content.ofJsonFields fields)) = .ok e := by
  cases e with
  | echo => rfl
  | template text =>
    obtain ⟨values, hvalues, hlookup⟩ := readParameters_single (k := .template)
      (s := .text text) hdistinct rfl (h ("template", _) List.mem_cons_self) rfl
    show ofParameters .template (.named (Content.ofJsonFields fields)) = _
    rw [ofParameters, hvalues]
    simp only [bind, Except.bind, hlookup]
    rfl
  | fail message =>
    obtain ⟨values, hvalues, hlookup⟩ := readParameters_single (k := .fail)
      (s := .text message) hdistinct rfl (h ("message", _) List.mem_cons_self) rfl
    show ofParameters .fail (.named (Content.ofJsonFields fields)) = _
    rw [ofParameters, hvalues]
    simp only [bind, Except.bind, hlookup]
    rfl
  | storeSet key =>
    obtain ⟨values, hvalues, hlookup⟩ := readParameters_single (k := .storeSet)
      (s := .text key) hdistinct rfl (h ("key", _) List.mem_cons_self) rfl
    show ofParameters .storeSet (.named (Content.ofJsonFields fields)) = _
    rw [ofParameters, hvalues]
    simp only [bind, Except.bind, hlookup]
    rfl
  | sleep ms =>
    obtain ⟨values, hvalues, hlookup⟩ := readParameters_single (k := .sleep) hdistinct rfl
      (h ("ms", _) List.mem_cons_self) (asWord_ofWord ms)
    show ofParameters .sleep (.named (Content.ofJsonFields fields)) = _
    rw [ofParameters, hvalues]
    simp only [bind, Except.bind, hlookup]
    rfl
  | command program args =>
    obtain ⟨values, hvalues, hprogram, hargs⟩ := readParameters_command hdistinct
      (h ("program", _) List.mem_cons_self)
      (h ("args", _) (List.mem_cons_of_mem _ List.mem_cons_self))
    show ofParameters .command (.named (Content.ofJsonFields fields)) = _
    rw [ofParameters, hvalues]
    simp only [bind, Except.bind, hprogram, hargs]
    rfl

/-- The parameters of an executor are what is left of its fields without the kind. -/
lemma ofParameters_saidBy {e : ExecutorSpec} {fields : List (String × Json)}
    (hdistinct : Fields.Distinct fields) (h : e.SaidBy fields) :
    ofParameters e.kind
      (.named (Content.ofJsonFields (fields.filter fun e => e.1 ≠ "type"))) = .ok e := by
  refine ofParameters_said (hdistinct.filter _) fun q hq => ?_
  have hkeep :=
    Fields.lookup_filter (p := (· ≠ "type")) (by simpa using ne_type_of_mem hq) fields
  exact hkeep.trans (h.2 q hq)

/-- An executor is read from the data it is held back as. -/
theorem ofContent_encoded {e : ExecutorSpec} {v : Json} (h : e.Encodes v) :
    ofContent (Content.ofJson v) = .ok e := by
  obtain ⟨fields, ⟨rfl, hdistinct⟩, hsaid⟩ := h
  have hkind : (Content.ofJson (.str e.kind.name)).readVariant ExecutorKind.named =
      .ok e.kind := readVariant_kind e.kind
  have hread := ofContent_toOption (Mapping.ofJson (fun _ => none) fields hdistinct)
  rw [Mapping.content_ofJson, Mapping.lookup_ofJson, hsaid.1, Option.map_some,
    Option.bind_some] at hread
  dsimp only [Entry.ofJson] at hread
  rw [hkind, Mapping.held_ofJson _ _ fun name => name ≠ "type"] at hread
  exact ok_of_toOption
    (hread.trans (congrArg Except.toOption (ofParameters_saidBy hdistinct hsaid)))

/-- An executor is read in place. -/
theorem ofDocument_encoded (text : Json → Option String) (path : Path) {e : ExecutorSpec}
    {v : Json} (h : e.Encodes v) : ofDocument path (rendered text v) = .ok e := by
  obtain ⟨fields, ⟨rfl, hdistinct⟩, hsaid⟩ := h
  have hkind : readKind (path.part (some "type")) (rendered text (.str e.kind.name)) =
      .ok e.kind := by
    show Document.placed _ (Content.readVariant ExecutorKind.named
      (Content.ofJson (.str e.kind.name))) = _
    rw [readVariant_kind]
    rfl
  have hread := ofDocument_toOption (Mapping.ofJson text fields hdistinct) path
  rw [Mapping.document_ofJson, Mapping.lookup_ofJson, hsaid.1, Option.map_some,
    Option.bind_some] at hread
  dsimp only [Entry.ofJson] at hread
  rw [hkind, Mapping.held_ofJson _ _ fun name => name ≠ "type"] at hread
  exact ok_of_toOption
    (hread.trans (congrArg Except.toOption (ofParameters_saidBy hdistinct hsaid)))

end ExecutorSpec

/-! ## Steps -/

namespace StepBody

/-- The values that a body lists. -/
def values : StepBody → List Json
  | iterate (some items) _ _ => items
  | _ => []

/-- The kind of a body. -/
def kind : StepBody → StepKind
  | prompt _ => .prompt
  | sequence _ => .sequence
  | parallel _ => .parallel
  | iterate _ _ _ => .iterate

/-- Whether the names of some fields stand for what a body says. -/
def SaidBy (body : StepBody) (fields : List (String × Json)) : Prop :=
  match body with
  | prompt text => fields.lookup "text" = some (.str text)
  | sequence executors | parallel executors =>
    ∃ vs, fields.lookup "executors" = some (.arr vs) ∧
      List.Forall₂ ExecutorSpec.Encodes executors vs
  | iterate items key agent =>
    fields.lookup "items" = items.map .arr ∧ fields.lookup "key" = key.map .str ∧
      ∃ v, fields.lookup "agent" = some v ∧ agent.Encodes v

/-- The names of the fields of all bodies. -/
def fieldNames : List String := ["text", "executors", "items", "key", "agent"]

/-- What a body says is said by what its names stand for. -/
lemma SaidBy.congr {body : StepBody} {fields fields' : List (String × Json)}
    (h : body.SaidBy fields)
    (hlookup : ∀ name ∈ fieldNames, fields'.lookup name = fields.lookup name) :
    body.SaidBy fields' := by
  simp only [fieldNames, List.forall_mem_cons] at hlookup
  obtain ⟨htext, hexecutors, hitems, hkey, hagent, -⟩ := hlookup
  cases body with
  | prompt text => exact htext.trans h
  | sequence executors | parallel executors =>
    obtain ⟨vs, hvs, hencodes⟩ := h
    exact ⟨vs, hexecutors.trans hvs, hencodes⟩
  | iterate items key agent =>
    obtain ⟨hitems', hkey', v, hv, hencodes⟩ := h
    exact ⟨hitems.trans hitems', hkey.trans hkey', v, hagent.trans hv, hencodes⟩

lemma readVariant_kind (k : StepKind) :
    Content.readVariant StepKind.named (Content.ofJson (.str k.name)) = .ok k := by
  have hlookup : StepKind.named.lookup k.name = some k := by cases k <;> decide
  rw [Content.ofJson, Content.text, Content.readVariant, hlookup]

/-- Executors are read one by one from what says everything about them. -/
lemma readExecutors_encoded {executors : List ExecutorSpec} {vs : List Json}
    (h : List.Forall₂ ExecutorSpec.Encodes executors vs) :
    readExecutors (Content.ofJson (.arr vs)) = .ok executors := by
  show (Content.ofJsonItems vs).mapM ExecutorSpec.ofContent = _
  exact mapM_encoded (fun _ _ => ExecutorSpec.ofContent_encoded) h

lemma readValues_encoded {items : List Json} (h : ∀ v ∈ items, v.Ordered) :
    readValues (Content.ofJson (.arr items)) = .ok items := by
  have hitems : List.Forall₂ (fun a v : Json => v = a ∧ a.Ordered) items items :=
    List.forall₂_same.mpr fun v hv => ⟨rfl, h v hv⟩
  show (Content.ofJsonItems items).mapM Content.toJson = _
  refine mapM_encoded ?_ hitems
  rintro a v ⟨rfl, hordered⟩
  exact Content.toJson_ofJson v hordered

/-- The readers of the fields of an iterate step. -/
def iterateReaders : List (String × (Content → Except Document.Cause IterateField)) :=
  [("items", fun c => (c.readOption readValues).map IterateField.items),
   ("key", fun c => (c.readOption Content.readText).map IterateField.key),
   ("agent", fun c => (ExecutorSpec.ofContent c).map IterateField.agent)]

/-- The fields of an iterate step, as they are read. -/
lemma readFields_iterate {items : Option (List Json)} {key : Option String}
    {agent : ExecutorSpec} {fields : List (String × Json)}
    (hdistinct : Fields.Distinct fields) (h : (iterate items key agent).SaidBy fields)
    (hordered : ∀ v ∈ (iterate items key agent).values, v.Ordered) :
    ∃ out, Content.readFields iterateReaders [] (Content.ofJsonFields fields) = .ok out ∧
      out.lookup "items" = items.map (fun vs => .items (some vs)) ∧
      out.lookup "key" = key.map (fun s => .key (some s)) ∧
      out.lookup "agent" = some (.agent agent) := by
  obtain ⟨hitems, hkey, v, hagent, hencodes⟩ := h
  have hreadItems : ∀ vs, items = some vs →
      ((Content.ofJson (.arr vs)).readOption readValues).map IterateField.items =
        .ok (.items (some vs)) := by
    rintro vs rfl
    show ((readValues (Content.ofJson (.arr vs))).map some).map _ = _
    have hvs : readValues (Content.ofJson (.arr vs)) = .ok vs := readValues_encoded hordered
    rw [hvs]
    rfl
  have hreadAgent : (ExecutorSpec.ofContent (Content.ofJson v)).map IterateField.agent =
      .ok (.agent agent) := by
    rw [ExecutorSpec.ofContent_encoded hencodes]
    rfl
  have hread : ∀ r ∈ iterateReaders, ∀ w, fields.lookup r.1 = some w →
      ∃ s, r.2 (Content.ofJson w) = .ok s := by
    rw [iterateReaders, List.forall_mem_cons, List.forall_mem_cons,
      List.forall_mem_singleton]
    refine ⟨fun w hw => ?_, fun w hw => ?_, fun w hw => ?_⟩
    · obtain ⟨vs, hvs, rfl⟩ := Option.map_eq_some_iff.mp (hitems.symm.trans hw)
      exact ⟨_, hreadItems vs hvs⟩
    · obtain ⟨s, -, rfl⟩ := Option.map_eq_some_iff.mp (hkey.symm.trans hw)
      exact ⟨_, rfl⟩
    · obtain rfl := Option.some.inj (hagent.symm.trans hw)
      exact ⟨_, hreadAgent⟩
  -- Every field can be read, so the fields together can, and each is then found
  -- under its name.
  obtain ⟨out, hout, hlookup⟩ :=
    Content.readFields_named hdistinct (fun _ _ => List.not_mem_nil) hread
  refine ⟨out, hout, ?_, ?_, ?_⟩
  · rw [hlookup, hitems]
    cases hcase : items with
    | none => rfl
    | some vs =>
      show Except.toOption
        (((Content.ofJson (.arr vs)).readOption readValues).map IterateField.items) = _
      rw [hreadItems vs hcase]
      rfl
  · rw [hlookup, hkey]
    cases key <;> rfl
  · rw [hlookup, hagent]
    show ((ExecutorSpec.ofContent (Content.ofJson v)).map IterateField.agent).toOption = _
    rw [hreadAgent]
    rfl

/-- A body is read from the data that its fields and its kind are held back as. -/
lemma ofContent_said (text : Json → Option String) {body : StepBody}
    {fields : List (String × Json)} (hdistinct : Fields.Distinct fields)
    (hkind : fields.lookup "kind" = some (.str body.kind.name)) (h : body.SaidBy fields)
    (hordered : ∀ v ∈ body.values, v.Ordered) :
    ofContent ((Mapping.ofJson text fields hdistinct).fields.map Entry.held) =
      .ok body := by
  have hsplit := splitEntries_eq (Mapping.ofJson text fields hdistinct).distinct
  have hvariant : (Content.ofJson (.str body.kind.name)).readVariant StepKind.named =
      .ok body.kind :=
    readVariant_kind body.kind
  rw [Mapping.lookup_ofJson, hkind, Option.map_some, Option.elim_some] at hsplit
  dsimp only [Entry.ofJson] at hsplit
  rw [hvariant, map_ok, Mapping.held_ofJson _ _ fun name => name ≠ "kind"] at hsplit
  -- Without its kind a body says what it said with it.
  have hdistinct' : Fields.Distinct (fields.filter fun e => e.1 ≠ "kind") :=
    hdistinct.filter _
  have hsaid : body.SaidBy (fields.filter fun e => e.1 ≠ "kind") := by
    refine h.congr fun name hname => Fields.lookup_filter (p := (· ≠ "kind")) ?_ fields
    revert name
    decide
  rw [ofContent, hsplit]
  dsimp only [bind, Except.bind]
  cases body with
  | prompt text =>
    have hread : Content.readText (Content.ofJson (.str text)) = .ok text := rfl
    obtain ⟨out, hout, htext⟩ := Content.readFields_single hdistinct' hsaid hread
    simp only [kind, hout, htext]
  | sequence executors | parallel executors =>
    obtain ⟨vs, hvs, hencodes⟩ := hsaid
    obtain ⟨out, hout, hexecutors⟩ :=
      Content.readFields_single hdistinct' hvs (readExecutors_encoded hencodes)
    simp only [kind, hout, hexecutors, Option.getD_some]
  | iterate items key agent =>
    obtain ⟨out, hout, hitems, hkey, hagent⟩ := readFields_iterate hdistinct' hsaid hordered
    rw [iterateReaders] at hout
    simp only [kind, hout, hitems, hkey, hagent]
    cases items <;> cases key <;> rfl

end StepBody

/-- An optional field is there exactly if it has a value. -/
lemma lookup_optional (name other : String) (v : Option Json) :
    (optional name v).lookup other = if other = name then v else none := by
  cases v with
  | none => exact (ite_self none).symm
  | some v =>
    rw [optional]
    by_cases h : other = name
    · subst h
      rw [Fields.lookup_cons_self, if_pos rfl]
    · rw [Fields.lookup_cons_of_ne [] (Ne.symm h), if_neg h]
      rfl

lemma names_optional (name : String) (v : Option Json) :
    ((optional name v).map Prod.fst).Sublist [name] := by
  cases v with
  | none => exact List.nil_sublist _
  | some v => exact List.Sublist.refl _

namespace StepBody

/-- A body is written with fields of bodies only. -/
lemma names_writtenFields (body : StepBody) :
    (body.writtenFields.map Prod.fst).Sublist fieldNames := by
  cases body with
  | prompt text => exact List.singleton_sublist.mpr (by decide : "text" ∈ fieldNames)
  | sequence executors | parallel executors =>
    exact List.singleton_sublist.mpr (by decide : "executors" ∈ fieldNames)
  | iterate items key agent =>
    rw [writtenFields, List.map_append, List.map_append]
    have hnames :=
      ((names_optional "items" (items.map .arr)).append
        (names_optional "key" (key.map .str))).append
      (List.Sublist.refl ["agent"])
    exact (hnames.cons "executors").cons "text"

/-- What a body is written as says the body. -/
lemma said_writtenFields (body : StepBody) : body.SaidBy body.writtenFields := by
  have hexecutors : ∀ executors : List ExecutorSpec,
      List.Forall₂ ExecutorSpec.Encodes executors (executors.map ExecutorSpec.written) := by
    intro executors
    rw [List.forall₂_map_right_iff, List.forall₂_same]
    exact fun e _ => e.encodes_written
  cases body with
  | prompt text => rfl
  | sequence executors | parallel executors => exact ⟨_, rfl, hexecutors executors⟩
  | iterate items key agent =>
    refine ⟨?_, ?_, agent.written, ?_, agent.encodes_written⟩ <;>
      simp [writtenFields, List.lookup_append, lookup_optional, List.lookup_cons]

end StepBody

namespace StepSpec

/-- Whether the names of some fields stand for what a step says. -/
structure SaidBy (s : StepSpec) (fields : List (String × Json)) : Prop where
  description : fields.lookup "description" = s.description.map .str
  onSuccess : Option.Rel ExecutorSpec.Encodes s.onSuccess (fields.lookup "on_success")
  onFail : Option.Rel ExecutorSpec.Encodes s.onFail (fields.lookup "on_fail")
  kind : fields.lookup "kind" = some (.str s.body.kind.name)
  body : s.body.SaidBy fields

/-- Whether a value says what a step says, in whatever order. -/
def Encodes (s : StepSpec) (v : Json) : Prop :=
  ∃ fields, v.IsRecord fields ∧ s.SaidBy fields

/-- A step is written as a value that encodes it. -/
lemma encodes_written (s : StepSpec) : s.Encodes s.written := by
  obtain ⟨description, onSuccess, onFail, body⟩ := s
  have hkind : (StepSpec.mk description onSuccess onFail body).kind = body.kind := by
    cases body <;> rfl
  -- Whatever is left out, the names come from one list in which none occurs twice.
  have hnames := (((names_optional "description" (description.map .str)).append
    (names_optional "on_success" (onSuccess.map ExecutorSpec.written))).append
    (names_optional "on_fail" (onFail.map ExecutorSpec.written))).append
      (body.names_writtenFields.cons_cons "kind")
  have hhandler : ∀ handler : Option ExecutorSpec,
      Option.Rel ExecutorSpec.Encodes handler (handler.map ExecutorSpec.written) := by
    rintro (_ | e)
    · exact .none
    · exact .some e.encodes_written
  have hother : ∀ name, name ∉ StepBody.fieldNames →
      body.writtenFields.lookup name = none := by
    intro name hname
    refine Fields.lookup_eq_none_of_fresh fun e he heq => hname ?_
    exact heq ▸ body.names_writtenFields.subset (List.mem_map_of_mem he)
  rw [written, hkind]
  refine ⟨_, ⟨rfl, ?_⟩, ?_, ?_, ?_, ?_, body.said_writtenFields.congr fun name hname => ?_⟩
  · unfold Fields.Distinct
    simp only [List.map_append, List.map_cons]
    exact hnames.nodup (by decide)
  · simp [List.lookup_append, lookup_optional, List.lookup_cons,
      hother "description" (by decide)]
  · simp [List.lookup_append, lookup_optional, List.lookup_cons,
      hother "on_success" (by decide), hhandler]
  · simp [List.lookup_append, lookup_optional, List.lookup_cons,
      hother "on_fail" (by decide), hhandler]
  · simp [List.lookup_append, lookup_optional]
  · have hne : name ≠ "description" ∧ name ≠ "on_success" ∧ name ≠ "on_fail" ∧
        name ≠ "kind" := by
      refine ⟨?_, ?_, ?_, ?_⟩ <;> (rintro rfl; exact absurd hname (by decide))
    rw [List.lookup_append, Fields.lookup_cons_of_ne _ (Ne.symm hne.2.2.2)]
    simp [List.lookup_append, lookup_optional, hne]

section
variable (text : Json → Option String) (path : Path)

/-- A handler is read in place. -/
lemma readAt_encoded (name : String) {handler : Option ExecutorSpec} {v : Option Json}
    (h : Option.Rel ExecutorSpec.Encodes handler v) :
    readAt handlerAt path (v.map (Entry.ofJson text name)) = some (handler.map some) := by
  cases h with
  | none => rfl
  | @some e v h =>
    have hspec := ExecutorSpec.ofDocument_encoded text (path.part (some name)) h
    obtain ⟨fields, ⟨rfl, -⟩, -⟩ := h
    show ((ExecutorSpec.ofDocument (path.part (some name))
      (rendered text (.obj fields))).map some).toOption.map some = _
    rw [hspec]
    rfl

/-- A step is read in place. -/
lemma ofDocument_encoded {s : StepSpec} {v : Json} (h : s.Encodes v)
    (hordered : ∀ w ∈ s.body.values, w.Ordered) :
    ofDocument path (rendered text v) = .ok s := by
  obtain ⟨fields, ⟨rfl, hdistinct⟩, h⟩ := h
  have hdescription : readAt descriptionAt path
      ((s.description.map Json.str).map (Entry.ofJson text "description")) =
      some (s.description.map some) := by
    cases s.description <;> rfl
  -- No name of a body or of its kind is read in place.
  have hlookup : ∀ name, isHeld name = true →
      (fields.filter fun e => isHeld e.1).lookup name = fields.lookup name :=
    fun name hname => Fields.lookup_filter hname fields
  have hbody : StepBody.ofContent
      (Content.ofJsonFields (fields.filter fun e => isHeld e.1)) = .ok s.body := by
    have hsaid := StepBody.ofContent_said text (hdistinct.filter fun e => isHeld e.1)
      ((hlookup "kind" (by decide)).trans h.kind) (h.body.congr fun name hname =>
        hlookup name ?_) hordered
    · rw [Mapping.ofJson, List.map_map] at hsaid
      rw [Content.ofJsonFields_eq]
      exact hsaid
    · revert name
      decide
  have hread := ofDocument_toOption (Mapping.ofJson text fields hdistinct) path
  rw [Mapping.document_ofJson, Mapping.lookup_ofJson, Mapping.lookup_ofJson,
    Mapping.lookup_ofJson, h.description, hdescription,
    readAt_encoded text path "on_success" h.onSuccess,
    readAt_encoded text path "on_fail" h.onFail, Mapping.held_ofJson, hbody] at hread
  refine ok_of_toOption (hread.trans ?_)
  have hgetD : ∀ {α : Type} (o : Option α), (o.map some).getD none = o :=
    fun o => by cases o <;> rfl
  simp only [Option.bind_some, Except.toOption, Option.map_some, hgetD]

end

end StepSpec

/-! ## Plans -/

theorem Store.entries_setAll (entries : List (String × Json)) (s : Store) :
    (s.setAll entries).entries = entries.foldl
      (fun fields e => Fields.insert e.1 e.2 fields) s.entries := by
  induction entries generalizing s with
  | nil => rfl
  | cons e entries ih => exact ih (s.set e.1 e.2)

/-- A store is the store of its own entries. -/
theorem Store.ofEntries_entries (s : Store) : Store.ofEntries s.entries = s := by
  have hentries : (Store.ofEntries s.entries).entries = s.entries :=
    (Store.entries_setAll s.entries .empty).trans (Fields.ofEntries_of_ordered s.ordered)
  generalize Store.ofEntries s.entries = t at hentries
  obtain ⟨es, hes⟩ := t
  obtain rfl := hentries
  rfl

lemma Store.eq_empty_of_isEmpty {s : Store} (h : s.isEmpty = true) : s = .empty := by
  obtain ⟨entries, hentries⟩ := s
  obtain rfl := List.isEmpty_iff.mp h
  rfl

namespace Plan

/-- Whether all values that a plan holds are in order. -/
def IsOrdered (p : Plan) : Prop :=
  (∀ e ∈ p.seed.entries, e.2.Ordered) ∧ ∀ s ∈ p.steps, ∀ v ∈ s.body.values, v.Ordered

/-- Whether the names of some fields stand for what a plan says. -/
structure SaidBy (p : Plan) (fields : List (String × Json)) : Prop where
  name : fields.lookup "name" = some (.str p.name)
  prompt : fields.lookup "prompt" = p.prompt.map .str
  store : fields.lookup "store" = if p.seed.isEmpty then none else some p.seed.snapshot
  steps : ∃ vs, fields.lookup "steps" = some (.arr vs) ∧
    List.Forall₂ StepSpec.Encodes p.steps vs

/-- Whether a value says what a plan says, in whatever order. -/
def Encodes (p : Plan) (v : Json) : Prop :=
  ∃ fields, v.IsRecord fields ∧ p.SaidBy fields

/-- A plan is written as a value that encodes it. -/
theorem encodes_written (p : Plan) : p.Encodes p.written := by
  have hstore : (if p.seed.isEmpty = true then [] else [("store", p.seed.snapshot)])
      = optional "store" (if p.seed.isEmpty then none else some p.seed.snapshot) := by
    split <;> rfl
  have hnames := (((names_optional "prompt" (p.prompt.map .str)).cons_cons "name").append
    (names_optional "store" (if p.seed.isEmpty then none else some p.seed.snapshot))).append
    (List.Sublist.refl ["steps"])
  have hsteps : List.Forall₂ StepSpec.Encodes p.steps (p.steps.map StepSpec.written) := by
    rw [List.forall₂_map_right_iff, List.forall₂_same]
    exact fun s _ => s.encodes_written
  rw [written, hstore]
  refine ⟨_, ⟨rfl, ?_⟩, ?_, ?_, ?_, _, ?_, hsteps⟩
  · unfold Fields.Distinct
    simp only [List.map_append, List.map_cons]
    exact hnames.nodup (by decide)
  · exact Fields.lookup_cons_self _ _ _
  · simp [List.lookup_append, lookup_optional, List.lookup_cons]
  · simp [List.lookup_append, lookup_optional, List.lookup_cons]
  · simp [List.lookup_append, lookup_optional, List.lookup_cons]

section
variable (text : Json → Option String) (path : Path)

/-- Steps are read one by one from what says everything about them. -/
lemma readSteps_encoded {steps : List StepSpec} {vs : List Json}
    (h : List.Forall₂ StepSpec.Encodes steps vs)
    (hordered : ∀ s ∈ steps, ∀ v ∈ s.body.values, v.Ordered) :
    readSteps path (rendered text (.arr vs)) = .ok steps := by
  have heach : ∀ index, Document.readEach StepSpec.ofDocument path index
      (renderedItems text vs) = .ok steps := by
    induction h with
    | nil => exact fun _ => rfl
    | @cons s v steps vs hhead _ ih =>
      intro index
      rw [List.forall_mem_cons] at hordered
      have hstep := StepSpec.ofDocument_encoded text (path.item index) hhead hordered.1
      have hrest := ih hordered.2 (index + 1)
      rw [renderedItems, Document.readEach, hstep, hrest]
      rfl
  exact heach 0

/-- A store is read back from its entries. -/
lemma readStore_written {seed : Store} (h : ∀ e ∈ seed.entries, e.2.Ordered) :
    readStore path (rendered text seed.snapshot) = .ok seed := by
  have hentries : ∀ fields : List (String × Json), (∀ e ∈ fields, e.2.Ordered) →
      readStoreEntries path (renderedFields text fields) = .ok fields := by
    intro fields hfields
    induction fields with
    | nil => rfl
    | cons e fields ih =>
      have hvalue := Document.toJson_rendered text (path.part (some e.1)) e.2
        (hfields e List.mem_cons_self)
      have hname : Document.readText path (Document.ofText e.1) = .ok e.1 := rfl
      rw [renderedFields, readStoreEntries, hname, hvalue, ih fun e' he' =>
        hfields e' (List.mem_cons_of_mem _ he')]
      rfl
  show (readStoreEntries path (renderedFields text seed.entries)).bind _ = _
  rw [hentries seed.entries h]
  exact congrArg Except.ok (Store.ofEntries_entries seed)

/-- The fields of a plan are read by name. -/
lemma readFields_said {p : Plan} {fields : List (String × Json)}
    (hdistinct : Fields.Distinct fields) (h : p.SaidBy fields) (hordered : p.IsOrdered) :
    ∃ out, Document.readFields readField [] [] (renderedFields text fields) = .ok out ∧
      out.lookup "name" = some (.name p.name) ∧
      out.lookup "prompt" = p.prompt.map (fun s => .prompt (some s)) ∧
      out.lookup "store" = (if p.seed.isEmpty then none else some (.store p.seed)) ∧
      out.lookup "steps" = some (.steps p.steps) := by
  obtain ⟨hname, hprompt, hstore, vs, hsteps, hencodes⟩ := h
  have hreadStore : ∀ path, readStore path (rendered text p.seed.snapshot) = .ok p.seed :=
    fun path => readStore_written text path hordered.1
  have hreadSteps : ∀ path, readSteps path (rendered text (.arr vs)) = .ok p.steps :=
    fun path => readSteps_encoded text path hencodes hordered.2
  have hread : ∀ name v result, fields.lookup name = some v →
      readField name (Document.Path.part [] (some name)) (rendered text v) = some result →
      ∃ s, result = .ok s := by
    intro name v result hv hresult
    unfold readField at hresult
    split at hresult
    · obtain rfl := Option.some.inj (hname.symm.trans hv)
      obtain rfl := Option.some.inj hresult
      exact ⟨_, rfl⟩
    · obtain ⟨s, -, rfl⟩ := Option.map_eq_some_iff.mp (hprompt.symm.trans hv)
      obtain rfl := Option.some.inj hresult
      exact ⟨_, rfl⟩
    · obtain ⟨-, hsnapshot⟩ := Option.ite_none_left_eq_some.mp (hstore.symm.trans hv)
      obtain rfl := Option.some.inj hsnapshot
      obtain rfl := Option.some.inj hresult
      rw [hreadStore]
      exact ⟨_, rfl⟩
    · obtain rfl := Option.some.inj (hsteps.symm.trans hv)
      obtain rfl := Option.some.inj hresult
      rw [hreadSteps]
      exact ⟨_, rfl⟩
    · cases hresult
  -- Every field can be read, so the fields together can, and each is then found
  -- under its name.
  obtain ⟨out, hout, hlookup⟩ :=
    Document.readFields_named text hdistinct (fun _ _ => List.not_mem_nil) hread
  refine ⟨out, hout, ?_, ?_, ?_, ?_⟩
  · rw [hlookup, hname]
    rfl
  · rw [hlookup, hprompt]
    cases p.prompt <;> rfl
  · rw [hlookup, hstore]
    split
    · rfl
    · show ((readStore _ (rendered text p.seed.snapshot)).map Field.store).toOption = _
      rw [hreadStore]
      rfl
  · rw [hlookup, hsteps]
    show ((readSteps _ (rendered text (.arr vs))).map Field.steps).toOption = _
    rw [hreadSteps]
    rfl

/-- A plan is read from every document of a value that encodes it. -/
theorem ofDocument_encoded (dialect : Document.Dialect) {p : Plan}
    {v : Json} (h : p.Encodes v) (hordered : p.IsOrdered) :
    ofDocument dialect (rendered text v) = .ok p := by
  obtain ⟨fields, ⟨rfl, hdistinct⟩, hsaid⟩ := h
  obtain ⟨out, hout, hname, hprompt, hstore, hsteps⟩ :=
    readFields_said text hdistinct hsaid hordered
  have htable : ofDocument dialect (rendered text (.obj fields))
      = (Document.readFields readField [] [] (renderedFields text fields)).bind
        (ofFields (.missingField "name")) := by
    cases dialect <;> rfl
  rw [htable, hout]
  show ofFields (.missingField "name") out = _
  rw [ofFields, hname, hprompt, hstore, hsteps]
  obtain ⟨name, prompt, seed, steps⟩ := p
  dsimp only
  by_cases hempty : seed.isEmpty = true
  · obtain rfl := Store.eq_empty_of_isEmpty hempty
    rw [if_pos hempty]
    cases prompt <;> rfl
  · rw [if_neg hempty]
    cases prompt <;> rfl

/-- A written plan is read back. -/
theorem ofDocument_written (dialect : Document.Dialect) {p : Plan} (h : p.IsOrdered) :
    ofDocument dialect (rendered text p.written) = .ok p :=
  ofDocument_encoded text dialect p.encodes_written h

end

end Plan

end Workplan
