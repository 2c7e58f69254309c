import Mathlib.Tactic.Lemma
import Workplan.Config.Basic
import Workplan.Plan.Loading
import Workplan.Proofs.Plan.Written

/-!
# Documents of plans and configurations

A plan, an executor and a configuration are read back from the value that they are written
as, whether its fields stand as they are written or in the order of their names
(`documents_round_trip`).  Bringing the fields of a record into order (`Json.sorted`) does
not change what a name stands for, so what a value encodes is still encoded.
-/

namespace Workplan

open Document (rendered renderedItems renderedFields Path Failure)

/-! ## Fields in order -/

namespace Json

mutual

/-- A value in order stays as it is. -/
theorem sorted_of_ordered (v : Json) (h : v.Ordered) : v.sorted = v := by
  match v with
  | .null | .bool _ | .int _ | .double _ | .str _ => rfl
  | .arr items => rw [sorted, sortedItems_of_ordered items h]
  | .obj fields =>
    rw [sorted, sortedFields_of_ordered fields h.2, ofEntries,
      Fields.ofEntries_of_ordered h.1]

/-- Items whose fields are in order stay as they are. -/
theorem sortedItems_of_ordered (items : List Json) (h : OrderedItems items) :
    sortedItems items = items := by
  match items with
  | [] => rfl
  | v :: rest => rw [sortedItems, sorted_of_ordered v h.1, sortedItems_of_ordered rest h.2]

theorem sortedFields_of_ordered (fields : List (String × Json)) (h : OrderedFields fields) :
    sortedFields fields = fields := by
  match fields with
  | [] => rfl
  | (name, v) :: rest =>
    rw [sortedFields, sorted_of_ordered v h.1, sortedFields_of_ordered rest h.2]

end

lemma sortedItems_eq (items : List Json) : sortedItems items = items.map sorted := by
  induction items with
  | nil => rfl
  | cons v rest ih => rw [sortedItems, ih, List.map_cons]

/-- Fields keep their names when they are sorted. -/
lemma distinct_sortedFields {fields : List (String × Json)} (h : Fields.Distinct fields) :
    Fields.Distinct (sortedFields fields) := by
  have hnames : (sortedFields fields).map Prod.fst = fields.map Prod.fst := by
    clear h
    induction fields with
    | nil => rfl
    | cons e rest ih => rw [sortedFields, List.map_cons, ih, List.map_cons]
  unfold Fields.Distinct
  rw [hnames]
  exact h

/-- A name stands for the same, sorted. -/
lemma lookup_sortedFields (name : String) (fields : List (String × Json)) :
    (sortedFields fields).lookup name = (fields.lookup name).map sorted := by
  induction fields with
  | nil => rfl
  | cons e rest ih =>
    obtain ⟨other, v⟩ := e
    rw [sortedFields]
    by_cases h : other = name
    · subst h
      rw [Fields.lookup_cons_self, Fields.lookup_cons_self]
      rfl
    · rw [Fields.lookup_cons_of_ne _ h, Fields.lookup_cons_of_ne _ h, ih]

/-- A record in order stands, under each name, for the same value in order. -/
lemma IsRecord.sorted {v : Json} {fields : List (String × Json)} (h : IsRecord v fields) :
    ∃ fields', IsRecord v.sorted fields' ∧
      ∀ name, fields'.lookup name = (fields.lookup name).map Json.sorted := by
  obtain ⟨rfl, hdistinct⟩ := h
  refine ⟨_, ⟨rfl, (Fields.ordered_ofEntries (sortedFields fields)).distinct⟩,
    fun name => ?_⟩
  rw [Fields.lookup_ofEntries (distinct_sortedFields hdistinct), lookup_sortedFields]

end Json

/-! ## Plans in order -/

/-- A sorted value says the same about an executor. -/
lemma ExecutorSpec.Encodes.sorted {e : ExecutorSpec} {v : Json} (h : e.Encodes v) :
    e.Encodes v.sorted := by
  obtain ⟨fields, hrecord, htype, hparameters⟩ := h
  obtain ⟨fields', hrecord', hlookup⟩ := hrecord.sorted
  have hordered : ∀ q ∈ e.writtenParameters, q.2.sorted = q.2 := by
    cases e <;> simp [writtenParameters, Json.sorted, Json.ofWord, Json.ofTexts,
      Json.sortedItems_eq]
  refine ⟨fields', hrecord', ?_, fun q hq => ?_⟩
  · rw [hlookup, htype]
    rfl
  · rw [hlookup, hparameters q hq, Option.map_some, hordered q hq]

/-- What is encoded item by item is encoded by the items in order. -/
lemma forall₂_sorted {α : Type} {R : α → Json → Prop} {as : List α} {vs : List Json}
    (h : List.Forall₂ R as vs) (hsorted : ∀ a ∈ as, ∀ v, R a v → R a v.sorted) :
    List.Forall₂ R as (Json.sortedItems vs) := by
  induction h with
  | nil => exact .nil
  | cons hhead _ ih =>
    rw [List.forall_mem_cons] at hsorted
    exact .cons (hsorted.1 _ hhead) (ih hsorted.2)

/-- It says the same about the body of a step, whose own values are in order. -/
lemma StepBody.SaidBy.sorted {body : StepBody} {fields fields' : List (String × Json)}
    (h : body.SaidBy fields)
    (hlookup : ∀ name, fields'.lookup name = (fields.lookup name).map Json.sorted)
    (hordered : ∀ v ∈ body.values, v.Ordered) : body.SaidBy fields' := by
  cases body with
  | prompt text =>
    rw [SaidBy] at h
    rw [SaidBy, hlookup, h]
    rfl
  | sequence executors | parallel executors =>
    obtain ⟨vs, hvs, hencodes⟩ := h
    refine ⟨Json.sortedItems vs, ?_, forall₂_sorted hencodes fun e _ v hv => hv.sorted⟩
    rw [hlookup, hvs]
    rfl
  | iterate items key agent =>
    obtain ⟨hitems, hkey, v, hagent, hencodes⟩ := h
    refine ⟨?_, ?_, v.sorted, ?_, hencodes.sorted⟩
    · rw [hlookup, hitems]
      cases items with
      | none => rfl
      | some vs =>
        -- The items are values of the plan itself, which are in order already.
        have hvs : Json.sortedItems vs = vs :=
          Json.sortedItems_of_ordered vs (Json.orderedItems_iff.mpr hordered)
        rw [Option.map_some, Option.map_some, Json.sorted, hvs]
    · rw [hlookup, hkey]
      cases key <;> rfl
    · rw [hlookup, hagent]
      rfl

/-- It says the same about a step. -/
lemma StepSpec.Encodes.sorted {s : StepSpec} {v : Json} (h : s.Encodes v)
    (hordered : ∀ w ∈ s.body.values, w.Ordered) : s.Encodes v.sorted := by
  obtain ⟨fields, hrecord, h⟩ := h
  obtain ⟨fields', hrecord', hlookup⟩ := hrecord.sorted
  have hhandler : ∀ {handler : Option ExecutorSpec} {v : Option Json},
      Option.Rel ExecutorSpec.Encodes handler v →
      Option.Rel ExecutorSpec.Encodes handler (v.map Json.sorted) := by
    rintro _ _ (hencodes | _)
    · exact .some hencodes.sorted
    · exact .none
  refine ⟨fields', hrecord', ?_, ?_, ?_, ?_, h.body.sorted hlookup hordered⟩
  · rw [hlookup, h.description]
    cases s.description <;> rfl
  · rw [hlookup]
    exact hhandler h.onSuccess
  · rw [hlookup]
    exact hhandler h.onFail
  · rw [hlookup, h.kind]
    rfl

namespace Plan

/-- It says the same about a plan. -/
lemma Encodes.sorted {p : Plan} {v : Json} (h : p.Encodes v) (hordered : p.IsOrdered) :
    p.Encodes v.sorted := by
  obtain ⟨fields, hrecord, hname, hprompt, hstore, vs, hsteps, hencodes⟩ := h
  obtain ⟨fields', hrecord', hlookup⟩ := hrecord.sorted
  have hseed : p.seed.snapshot.sorted = p.seed.snapshot :=
    Json.sorted_of_ordered _ ⟨p.seed.ordered, Json.orderedFields_iff.mpr hordered.1⟩
  refine ⟨fields', hrecord', ?_, ?_, ?_, Json.sortedItems vs, ?_,
    forall₂_sorted hencodes fun s hs v hv => hv.sorted (hordered.2 s hs)⟩
  · rw [hlookup, hname]
    rfl
  · rw [hlookup, hprompt]
    cases p.prompt <;> rfl
  · rw [hlookup, hstore]
    split
    · rfl
    · rw [Option.map_some, hseed]
  · rw [hlookup, hsteps]
    rfl

end Plan

/-! ## Documents -/

namespace Document

mutual

/-- The document of a value lends no text to what is no text. -/
theorem ofJson_eq_rendered (v : Json) : ofJson v = rendered (fun _ => none) v := by
  match v with
  | .null | .bool _ | .int _ | .double _ | .str _ => rfl
  | .arr items => rw [ofJson, ofJsonItems_eq_rendered, rendered]
  | .obj fields => rw [ofJson, ofJsonFields_eq_rendered, rendered]

theorem ofJsonItems_eq_rendered (items : List Json) :
    ofJsonItems items = renderedItems (fun _ => none) items := by
  match items with
  | [] => rfl
  | v :: rest =>
    rw [ofJsonItems, renderedItems, ofJson_eq_rendered v, ofJsonItems_eq_rendered rest]

theorem ofJsonFields_eq_rendered (fields : List (String × Json)) :
    ofJsonFields fields = renderedFields (fun _ => none) fields := by
  match fields with
  | [] => rfl
  | (name, v) :: rest =>
    rw [ofJsonFields, renderedFields, ofJson_eq_rendered v, ofJsonFields_eq_rendered rest]

end

end Document

namespace ExecutorSpec

lemma ofDocument_toJson (path : Path) (e : ExecutorSpec) :
    ofDocument path (Document.ofJson e.toJson) = .ok e := by
  rw [Document.ofJson_eq_rendered]
  exact ofDocument_encoded _ path e.encodes_written.sorted

lemma ofContent_toJson (e : ExecutorSpec) : ofContent (Content.ofJson e.toJson) = .ok e :=
  ofContent_encoded e.encodes_written.sorted

end ExecutorSpec

namespace Plan

/-- A plan is read back from its value. -/
lemma ofJson_toJson {p : Plan} (h : p.IsOrdered) : ofJson p.toJson = .ok p := by
  rw [ofJson, Document.ofJson_eq_rendered]
  exact ofDocument_encoded _ .json (p.encodes_written.sorted h) h

/-- A plan is read back from what is written out, with the fields in another order. -/
lemma ofJson_written {p : Plan} (h : p.IsOrdered) : ofJson p.written = .ok p := by
  rw [ofJson, Document.ofJson_eq_rendered]
  exact ofDocument_written _ .json h

end Plan

/-! ## Configurations -/

/-- A record with defaults is read from the document of its entries, each field from the
value of its name. -/
lemma Document.readDefaulted_ofEntries {σ : Type} (wanted : String) (names : List String)
    {read : String → Path → Document → Option (Except Failure σ)}
    {entries : List (String × Json)} (hdistinct : Fields.Distinct entries)
    (hread : ∀ e ∈ entries, ∃ s, read e.1 (Path.part [] (some e.1)) (ofJson e.2) =
      some (.ok s)) :
    ∃ out, readDefaulted wanted names read (ofJson (.ofEntries entries)) = .ok out ∧
      ∀ name, out.lookup name = (entries.lookup name).bind fun v =>
        (read name (Path.part [] (some name)) (ofJson v)).bind Except.toOption := by
  -- The entries are put in order when they become a value; their names stand for the
  -- same as before.
  have hlookup := Fields.lookup_ofEntries hdistinct
  have hread' : ∀ name v result, (Fields.ofEntries entries).lookup name = some v →
      read name (Path.part [] (some name)) (rendered (fun _ => none) v) = some result →
      ∃ s, result = .ok s := by
    intro name v result hv hresult
    rw [hlookup] at hv
    obtain ⟨s, hs⟩ := hread _ (mem_of_lookup_eq_some hv)
    rw [← ofJson_eq_rendered, hs] at hresult
    exact ⟨s, (Option.some.inj hresult).symm⟩
  obtain ⟨out, hout, hnamed⟩ :=
    readFields_named (fun _ => none) (Fields.ordered_ofEntries entries).distinct
    (fun _ _ => List.not_mem_nil) hread'
  refine ⟨out, ?_, fun name => ?_⟩
  · rw [ofJson_eq_rendered]
    exact hout
  · rw [hnamed, hlookup]
    congr 1
    funext v
    rw [ofJson_eq_rendered]

namespace GlobalConfig

/-- The entries of a configuration, in the order of its fields. -/
def entries (c : GlobalConfig) : List (String × Json) :=
  [("loop_delay_ms", Json.ofWord c.loopDelayMs), ("otel", .bool c.otel)]
    ++ (c.logFilter.map fun f => ("log_filter", Json.str f)).toList

/-- The entry that a field is written as, if it has a value. -/
def Field.entry? : Field → Option (String × Json)
  | delay ms => some ("loop_delay_ms", .ofWord ms)
  | otel on => some ("otel", .bool on)
  | filter directive => directive.map fun f => ("log_filter", .str f)

/-- A field reads back from its entry, wherever that stands. -/
lemma Field.reads {f : Field} {e : String × Json} (h : f.entry? = some e) (path : Path) :
    readField e.1 path (Document.ofJson e.2) = some (.ok f) := by
  cases f with
  | delay ms =>
    obtain rfl := Option.some.inj h
    show some ((Document.placed path (Document.wordOfAtom (.int (.ofWord ms)))).map _) = _
    rw [Document.wordOfAtom, WordInt.toWord?_ofWord]
    rfl
  | otel on => obtain rfl := Option.some.inj h; rfl
  | filter directive => obtain ⟨text, rfl, rfl⟩ := Option.map_eq_some_iff.mp h; rfl

/-- Each entry of a configuration is that of one of its fields. -/
lemma exists_field {c : GlobalConfig} {e : String × Json} (h : e ∈ c.entries) :
    ∃ field : Field, field.entry? = some e := by
  rcases List.mem_append.mp h with hfirst | hfilter
  · rcases List.mem_cons.mp hfirst with rfl | hotel
    · exact ⟨.delay _, rfl⟩
    · exact ⟨.otel _, congrArg some (List.mem_singleton.mp hotel).symm⟩
  · exact ⟨.filter _, Option.mem_toList.mp hfilter⟩

lemma ofDocument_toJson (c : GlobalConfig) :
    ofDocument (Document.ofJson c.toJson) = .ok c := by
  have hdistinct : Fields.Distinct c.entries := by
    unfold Fields.Distinct entries
    cases c.logFilter <;> simp
  have hread : ∀ e ∈ c.entries, ∃ s, readField e.1 (Path.part [] (some e.1))
      (Document.ofJson e.2) = some (.ok s) := by
    intro e he
    obtain ⟨field, hfield⟩ := exists_field he
    exact ⟨field, Field.reads hfield _⟩
  obtain ⟨out, hout, hlookup⟩ := Document.readDefaulted_ofEntries "struct GlobalConfig"
    ["loop_delay_ms", "otel", "log_filter"] hdistinct hread
  have hdelay : out.lookup "loop_delay_ms" = some (.delay c.loopDelayMs) := by
    have hentry : c.entries.lookup "loop_delay_ms" = some (.ofWord c.loopDelayMs) := rfl
    rw [hlookup, hentry, Option.bind_some, Field.reads (f := .delay _) rfl]
    rfl
  have hotel : out.lookup "otel" = some (.otel c.otel) := by
    rw [hlookup]
    rfl
  have hfilter : out.lookup "log_filter" = c.logFilter.map fun f => .filter (some f) := by
    rw [hlookup, entries]
    cases c.logFilter <;> rfl
  have htable : ofDocument (Document.ofJson c.toJson) =
      (Document.readDefaulted "struct GlobalConfig"
    ["loop_delay_ms", "otel", "log_filter"] readField
      (Document.ofJson (.ofEntries c.entries))).bind _ := rfl
  rw [htable, hout]
  simp only [Except.bind, ofFields, hdelay, hotel, hfilter]
  cases c with
  | mk ms on filter => cases filter <;> rfl

end GlobalConfig

namespace WorkflowConfig

/-- The entries of a configuration, in the order of its fields. -/
def entries (c : WorkflowConfig) : List (String × Json) :=
  ("name", Json.str c.name) :: (c.prompt.map fun p => ("prompt", Json.str p)).toList

/-- The entry that a field is written as, if it has a value. -/
def Field.entry? : Field → Option (String × Json)
  | name s => some ("name", .str s)
  | prompt s => s.map fun p => ("prompt", .str p)

/-- A field reads back from its entry, wherever that stands. -/
lemma Field.reads {f : Field} {e : String × Json} (h : f.entry? = some e) (path : Path) :
    readField e.1 path (Document.ofJson e.2) = some (.ok f) := by
  cases f with
  | name s => obtain rfl := Option.some.inj h; rfl
  | prompt s => obtain ⟨p, rfl, rfl⟩ := Option.map_eq_some_iff.mp h; rfl

/-- Each entry of a configuration is that of one of its fields. -/
lemma exists_field {c : WorkflowConfig} {e : String × Json} (h : e ∈ c.entries) :
    ∃ field : Field, field.entry? = some e := by
  rcases List.mem_cons.mp h with rfl | hprompt
  · exact ⟨.name _, rfl⟩
  · exact ⟨.prompt _, Option.mem_toList.mp hprompt⟩

lemma ofDocument_toJson (c : WorkflowConfig) :
    ofDocument (Document.ofJson c.toJson) = .ok c := by
  have hdistinct : Fields.Distinct c.entries := by
    unfold Fields.Distinct entries
    cases c.prompt <;> simp
  have hread : ∀ e ∈ c.entries, ∃ s, readField e.1 (Path.part [] (some e.1))
      (Document.ofJson e.2) = some (.ok s) := by
    intro e he
    obtain ⟨field, hfield⟩ := exists_field he
    exact ⟨field, Field.reads hfield _⟩
  obtain ⟨out, hout, hlookup⟩ := Document.readDefaulted_ofEntries "struct WorkflowConfig"
    ["name", "prompt"] hdistinct hread
  have hname : out.lookup "name" = some (.name c.name) := by
    rw [hlookup]
    rfl
  have hprompt : out.lookup "prompt" = c.prompt.map fun p => .prompt (some p) := by
    rw [hlookup, entries]
    cases c.prompt <;> rfl
  have htable : ofDocument (Document.ofJson c.toJson) =
      (Document.readDefaulted "struct WorkflowConfig"
    ["name", "prompt"] readField (Document.ofJson (.ofEntries c.entries))).bind _ := rfl
  rw [htable, hout]
  simp only [Except.bind, hname, hprompt]
  cases c with
  | mk name prompt => cases prompt <;> rfl

end WorkflowConfig

/-! ## The round trip -/

/-- Writing a plan, an executor or a configuration and reading the value that it is
written as gives the same again, whether the plan is valid or not.  A plan is read back
with its fields in the order of their names, which is the order of a value, and in the
order in which they are written out; an executor is read back in place and from held-back
data.  The names of the written value stand for what the plan says, and those of fields
without a value are not there.

Of the values in the store and among the items nothing is asked but that their objects
have their names in order, as all objects have that are made from entries or read from
a document. -/
theorem documents_round_trip {p : Plan} (h : p.IsOrdered) (e : ExecutorSpec) (path : Path)
    (global : GlobalConfig) (workflow : WorkflowConfig) :
    (p.Encodes p.toJson ∧ Plan.ofJson p.toJson = .ok p ∧ Plan.ofJson p.written = .ok p) ∧
    (ExecutorSpec.ofDocument path (Document.ofJson e.toJson) = .ok e ∧
      ExecutorSpec.ofContent (Content.ofJson e.toJson) = .ok e) ∧
    GlobalConfig.ofDocument (Document.ofJson global.toJson) = .ok global ∧
    WorkflowConfig.ofDocument (Document.ofJson workflow.toJson) = .ok workflow := by
  have hplan : p.Encodes p.toJson ∧ Plan.ofJson p.toJson = .ok p ∧
      Plan.ofJson p.written = .ok p :=
    ⟨p.encodes_written.sorted h, Plan.ofJson_toJson h, Plan.ofJson_written h⟩
  have hexecutor := And.intro (e.ofDocument_toJson path) e.ofContent_toJson
  exact ⟨hplan, hexecutor, global.ofDocument_toJson, workflow.ofDocument_toJson⟩

/-- A plan that is not valid: it has no name, and its step iterates over items and
over a key. -/
def nameless : Plan where
  name := ""
  prompt := some ""
  seed := ⟨[("k", .obj [("a", .null)])], List.pairwise_singleton _ _⟩
  steps := [⟨none, some (.storeSet "k"), none,
    .iterate (some [.int ⟨-7, by decide, by decide⟩, .double (.zero true), .null])
      (some "") .echo⟩,
    ⟨some "", none, none, .sequence []⟩]

/-- What it is written as. -/
def namelessJson : Json :=
  .obj [("name", .str ""), ("prompt", .str ""), ("steps", .arr [
      .obj [("agent", .obj [("type", .str "echo")]),
        ("items", .arr [.int ⟨-7, by decide, by decide⟩, .double (.zero true), .null]),
        ("key", .str ""), ("kind", .str "iterate"),
        ("on_success", .obj [("key", .str "k"), ("type", .str "store_set")])],
      .obj [("description", .str ""), ("executors", .arr []), ("kind", .str "sequence")]]),
    ("store", .obj [("k", .obj [("a", .null)])])]

theorem documents_round_trip_nameless :
    nameless.toJson = namelessJson ∧ Plan.ofJson namelessJson = .ok nameless ∧
      ExecutorSpec.ofContent (Content.ofJson (ExecutorSpec.command "" []).toJson) =
        .ok (.command "" []) ∧
      GlobalConfig.ofDocument (Document.ofJson (GlobalConfig.toJson ⟨0, true, some ""⟩)) =
        .ok ⟨0, true, some ""⟩ ∧
      WorkflowConfig.ofDocument (Document.ofJson (WorkflowConfig.toJson ⟨"", some ""⟩)) =
        .ok ⟨"", some ""⟩ := by
  have hjson : nameless.toJson = namelessJson := rfl
  have hordered : nameless.IsOrdered := by
    simp [Plan.IsOrdered, nameless, StepBody.values, Json.Ordered, Json.OrderedFields,
      Fields.Ordered]
  obtain ⟨⟨-, hplan, -⟩, ⟨-, hexecutor⟩, hglobal, hworkflow⟩ :=
    documents_round_trip hordered (.command "" []) [] ⟨0, true, some ""⟩ ⟨"", some ""⟩
  exact ⟨hjson, hjson ▸ hplan, hexecutor, hglobal, hworkflow⟩

end Workplan
