import Mathlib.Tactic.Lemma
import Workplan.Proofs.Document.Rendered
import Workplan.Proofs.Yaml.Nodes
import Workplan.Yaml.Meaning

/-!
# Printed values as documents

A printed table is parsed as the document of its value, as long as it is not nested too
deeply (`parse?_print`).  Every scalar is read as what was printed: a text as itself, in
whatever form it was written, and a number, a truth value or null by its value.  Documents
are nested no deeper than the parser allows (`depth_parse?`).
-/

namespace Workplan.Yaml

open Document (rendered renderedItems renderedFields)

/-! ## Scalars -/

/-- A written text is read as itself, and stands for nothing else. -/
lemma readScalar_text (s : String) :
    readScalar none (styleOf s) s = ⟨some s, .ok false, false, .ok (.text s)⟩ := by
  unfold styleOf
  by_cases hform : formOf s = .plain
  · obtain ⟨hresolve, hempty, hnull⟩ := of_readsAsText (of_formOf_plain hform).1
    rw [if_pos hform]
    simp [readScalar, hresolve, hempty, hnull]
  · rw [if_neg hform]
    simp [readScalar]

/-- What is read as a value is neither missing nor vacant. -/
lemma readScalar_plain {s : String} {a : Atom} (h : resolve s = .ok a) (ha : a ≠ .unit) :
    readScalar none .plain s = ⟨some s, .ok false, false, .ok a⟩ := by
  have hnot : (s.isEmpty || isNull s) = false := by
    refine Bool.eq_false_iff.mpr fun hnone => ha ?_
    unfold resolve at h
    rw [if_pos hnone] at h
    exact (Except.ok.inj h).symm
  rw [Bool.or_eq_false_iff] at hnot
  simp [readScalar, h, hnot]

/-- The text that the printed form lends to a number, a truth value or null. -/
def atomText (v : Json) : Option String :=
  some (String.ofList (atomChars v))

/-- The word for nothing reads as nothing. -/
lemma readScalar_null :
    readScalar none .plain "null" = ⟨some "null", .ok true, false, .ok .unit⟩ := by
  have hnull : isNull "null" = true := by decide
  have hempty : "null".isEmpty = false := by decide
  have hresolve : resolve "null" = .ok .unit := by
    rw [resolve, hempty, hnull]
    rfl
  simp [readScalar, hnull, hempty, hresolve]

lemma resolve_bool (b : Bool) :
    resolve (String.ofList (atomChars (.bool b))) = .ok (.bool b) := by
  have hnot : ∀ b, ((String.ofList (atomChars (.bool b))).isEmpty || isNull
      (String.ofList (atomChars (.bool b)))) = false := by
    decide
  have hread : ∀ b, readBool? (String.ofList (atomChars (.bool b))) = some b := by decide
  rw [resolve, hnot, hread]
  rfl

/-- How numbers and truth values are read again. -/
lemma readScalar_atomChars :
    (∀ b, readScalar none .plain (String.ofList (atomChars (.bool b))) =
      ⟨atomText (.bool b), .ok false, false, .ok (.bool b)⟩) ∧
    (∀ n, readScalar none .plain (String.ofList (atomChars (.int n))) =
      ⟨atomText (.int n), .ok false, false, .ok (.int n)⟩) ∧
    (∀ d, readScalar none .plain (String.ofList (atomChars (.double d)))
      = ⟨atomText (.double d), .ok false, false, .ok (.float (.finite d))⟩) := by
  refine ⟨fun b => ?_, fun n => ?_, fun d => ?_⟩
  · refine readScalar_plain ?_ nofun
    exact resolve_bool b
  · refine readScalar_plain ?_ nofun
    show resolve (String.ofList (toString n.val).toList) = _
    rw [String.ofList_toList]
    exact resolve_int n
  · refine readScalar_plain ?_ nofun
    show resolve (String.ofList (Double.text false d).toList) = _
    rw [String.ofList_toList]
    exact resolve_text d

/-! ## Trees -/

lemma depth_withMark (tag : Option String) (d : Document) :
    (withMark tag d).depth = d.depth := by
  unfold withMark
  split
  · split <;> rfl
  · rfl

/-- Every node takes some fuel. -/
lemma size_nodeOf_pos (v : Json) : 0 < (nodeOf v).size := by
  cases v with
  | null | bool | int | double | str => exact Nat.one_pos
  | arr | obj =>
    rw [nodeOf, Node.size]
    omega

section
variable (s : Source) {fuel depth jumps : Nat}

/-- A scalar stands for what it reads as. -/
lemma expand_scalar (style : Style) (text : String) :
    expand s (fuel + 1) depth jumps (.scalar none style text) =
      (.scalar (readScalar none style text), jumps) := by
  rw [expand]
  rfl

mutual

/-- The node of a value stands for the document of the value. -/
theorem expand_nodeOf (v : Json) {fuel depth : Nat} (hfuel : (nodeOf v).size ≤ fuel)
    (hdepth : v.depth ≤ depth) :
    expand s fuel depth jumps (nodeOf v) = (rendered atomText v, jumps) := by
  have hpos := size_nodeOf_pos v
  obtain ⟨fuel, rfl⟩ : ∃ f, fuel = f + 1 := ⟨fuel - 1, by omega⟩
  obtain ⟨hbool, hint, hdouble⟩ := readScalar_atomChars
  match v with
  | .null =>
    show expand s (fuel + 1) depth jumps (.scalar none .plain "null") = _
    rw [expand_scalar, readScalar_null]
    rfl
  | .bool b =>
    show expand s (fuel + 1) depth jumps
      (.scalar none .plain (String.ofList (atomChars (.bool b)))) = _
    rw [expand_scalar, hbool]
    rfl
  | .int n =>
    show expand s (fuel + 1) depth jumps
      (.scalar none .plain (String.ofList (atomChars (.int n)))) = _
    rw [expand_scalar, hint]
    rfl
  | .double d =>
    show expand s (fuel + 1) depth jumps
      (.scalar none .plain (String.ofList (atomChars (.double d)))) = _
    rw [expand_scalar, hdouble]
    rfl
  | .str text =>
    show expand s (fuel + 1) depth jumps (.scalar none (styleOf text) text) = _
    rw [expand_scalar, readScalar_text]
    rfl
  -- Every level of nesting takes one from the depth that is left.
  | .arr items =>
    have hdepth : 1 + Json.depthItems items ≤ depth := hdepth
    have hfuel : 2 + Node.sizeItems (itemNodes items) ≤ fuel + 1 := hfuel
    obtain ⟨depth, rfl⟩ : ∃ d, depth = d + 1 := ⟨depth - 1, by omega⟩
    rw [nodeOf, expand, expandItems_itemNodes items (by omega) (by omega)]
    rfl
  | .obj fields =>
    have hdepth : 1 + Json.depthFields fields ≤ depth := hdepth
    have hfuel : 2 + Node.sizeEntries (fieldNodes fields) ≤ fuel + 1 := hfuel
    obtain ⟨depth, rfl⟩ : ∃ d, depth = d + 1 := ⟨depth - 1, by omega⟩
    rw [nodeOf, expand, expandEntries_fieldNodes fields (by omega) (by omega)]
    rfl

/-- Items expand one by one. -/
theorem expandItems_itemNodes (items : List Json) {fuel depth : Nat}
    (hfuel : Node.sizeItems (itemNodes items) + 1 ≤ fuel)
    (hdepth : Json.depthItems items ≤ depth) :
    expandItems s fuel depth jumps (itemNodes items) = (renderedItems atomText items,
      jumps) := by
  obtain ⟨fuel, rfl⟩ : ∃ f, fuel = f + 1 := ⟨fuel - 1, by omega⟩
  match items with
  | [] =>
    rw [itemNodes, expandItems]
    rfl
  | v :: rest =>
    have hpos := size_nodeOf_pos v
    have hfuel : (nodeOf v).size + Node.sizeItems (itemNodes rest) + 1 ≤ fuel + 1 := hfuel
    have hdepth : max v.depth (Json.depthItems rest) ≤ depth := hdepth
    rw [itemNodes, expandItems, expand_nodeOf v (by omega) (by omega)]
    dsimp only
    rw [expandItems_itemNodes rest (by omega) (by omega)]
    rfl

theorem expandEntries_fieldNodes (fields : List (String × Json)) {fuel depth : Nat}
    (hfuel : Node.sizeEntries (fieldNodes fields) + 1 ≤ fuel)
    (hdepth : Json.depthFields fields ≤ depth) :
    expandEntries s fuel depth jumps (fieldNodes fields) =
      (renderedFields atomText fields, jumps) := by
  obtain ⟨fuel, rfl⟩ : ∃ f, fuel = f + 1 := ⟨fuel - 1, by omega⟩
  match fields with
  | [] =>
    rw [fieldNodes, expandEntries]
    rfl
  | (name, v) :: rest =>
    have hpos := size_nodeOf_pos v
    have hfuel : 1 + (nodeOf v).size + Node.sizeEntries (fieldNodes rest) +
        1 ≤ fuel + 1 := hfuel
    have hdepth : max v.depth (Json.depthFields rest) ≤ depth := hdepth
    -- The name is read as a text however it was written.
    have hname : expand s fuel depth jumps (.scalar none (styleOf name) name) =
        (Document.ofText name, jumps) := by
      obtain ⟨fuel, rfl⟩ : ∃ f, fuel = f + 1 := ⟨fuel - 1, by omega⟩
      rw [expand_scalar, readScalar_text]
      rfl
    rw [fieldNodes, expandEntries, hname]
    dsimp only
    rw [expand_nodeOf v (by omega) (by omega)]
    dsimp only
    rw [expandEntries_fieldNodes rest (by omega) (by omega)]
    rfl

end

mutual

/-- A part becomes no deeper than it may. -/
theorem depth_expand (fuel depth jumps : Nat) (n : Node) :
    (expand s fuel depth jumps n).1.depth ≤ depth := by
  match fuel, n with
  | 0, _ =>
    rw [expand]
    exact Nat.zero_le _
  | fuel + 1, .scalar tag style text =>
    rw [expand, depth_withMark]
    exact Nat.zero_le _
  | fuel + 1, .reference number =>
    unfold expand
    split
    -- What a name stands for is put in its place, at the same depth.
    · next target _ => exact depth_expand fuel depth _ target
    · exact Nat.zero_le _
  | fuel + 1, .list tag items =>
    cases depth with
    | zero =>
      rw [expand]
      exact Nat.zero_le _
    | succ depth =>
      have hitems := depth_expandItems fuel depth jumps items
      rw [expand, depth_withMark, Document.depth]
      omega
  | fuel + 1, .table tag entries =>
    cases depth with
    | zero =>
      rw [expand]
      exact Nat.zero_le _
    | succ depth =>
      have hentries := depth_expandEntries fuel depth jumps entries
      rw [expand, depth_withMark, Document.depth]
      omega

theorem depth_expandItems (fuel depth jumps : Nat) (items : List Node) :
    Document.depthItems (expandItems s fuel depth jumps items).1 ≤ depth := by
  match fuel, items with
  | 0, _ =>
    rw [expandItems]
    exact Nat.zero_le _
  | fuel + 1, [] =>
    rw [expandItems]
    exact Nat.zero_le _
  | fuel + 1, n :: rest =>
    rw [expandItems]
    have hfirst := depth_expand fuel depth jumps n
    have hrest := depth_expandItems fuel depth (expand s fuel depth jumps n).2 rest
    exact Nat.max_le.mpr ⟨hfirst, hrest⟩

theorem depth_expandEntries (fuel depth jumps : Nat) (entries : List (Node × Node)) :
    Document.depthEntries (expandEntries s fuel depth jumps entries).1 ≤ depth := by
  match fuel, entries with
  | 0, _ =>
    rw [expandEntries]
    exact Nat.zero_le _
  | fuel + 1, [] =>
    rw [expandEntries]
    exact Nat.zero_le _
  | fuel + 1, (k, v) :: rest =>
    rw [expandEntries]
    have hvalue := depth_expand fuel depth (expand s fuel depth jumps k).2 v
    have hrest := depth_expandEntries fuel depth
      (expand s fuel depth (expand s fuel depth jumps k).2 v).2 rest
    exact Nat.max_le.mpr ⟨hvalue, hrest⟩

end

end

/-! ## Texts -/

/-- A text describes a document that is nested no deeper than is allowed. -/
theorem depth_parse? {text : String} {d : Document} (h : parse? text = some d) :
    d.depth ≤ maxDepth := by
  unfold parse? at h
  cases htokens : Token.sequence? text with
  | none =>
    rw [htokens] at h
    cases h
  | some tokens =>
    cases hsource : Source.ofTokens? tokens with
    | none =>
      simp [htokens, hsource] at h
    -- The whole document is the first node, with the full depth left.
    | some source =>
      have hd : source.toDocument = d := by simpa [htokens, hsource] using h
      rw [← hd, Source.toDocument]
      exact depth_expand source _ _ _ _

/-- The tokens of a printed table hold one document, without anchors. -/
lemma ofTokens?_printed {fields : List (String × Json)} (hfields : fields ≠ []) :
    Source.ofTokens? (.blockTableStart :: (fieldTokens fields ++ [.blockEnd])) =
      some ⟨nodeOf (.obj fields), []⟩ := by
  obtain ⟨tokens, htokens⟩ : ∃ tokens, tokens = Token.blockTableStart ::
    (fieldTokens fields ++ [.blockEnd]) := ⟨_, rfl⟩
  have hvalue : valueTokens false (.obj fields) = tokens := by
    rw [htokens]
    cases fields with
    | nil => exact absurd rfl hfields
    | cons field fields => rfl
  have hnode : ∀ b : Build, Build.node true false (4 * tokens.length + 8) (b.before tokens)
      = some (nodeOf (.obj fields), b.before []) := by
    intro b
    have hlength : 3 * (valueTokens false (.obj fields)).length + 2 ≤ 4 *
        tokens.length + 8 := by
      rw [hvalue]
      omega
    have hread : Build.node true false (4 * tokens.length + 8)
        (b.before (valueTokens false (.obj fields) ++ []))
        = some (nodeOf (.obj fields), b.before []) :=
      Build.node_valueTokens (.obj fields) b (fun h => by cases h) hlength
    rwa [List.append_nil, hvalue] at hread
  let b : Build := {
    tokens, names := [], nameCount := 0, starts := 0, anchors := []
    handles := [] ++ [("!", "!"), ("!!", "tag:yaml.org,2002:")] }
  have hstart : Source.ofTokens? tokens = (Build.node true false (4 * tokens.length + 8)
      (b.before tokens)).bind fun r =>
      if (r.2.tokens.dropWhile (· == .documentEnd)).isEmpty then some ⟨r.1, r.2.anchors⟩
      else none := by
    simp only [b]
    rw [htokens]
    rfl
  rw [← htokens, hstart, hnode]
  rfl

/-- A printed table is the document of its value. -/
theorem parse?_print {fields : List (String × Json)} (hfields : fields ≠ [])
    (hdepth : (Json.obj fields).depth ≤ maxDepth) :
    parse? (print (.obj fields)) = some (rendered atomText (.obj fields)) := by
  have hdocument : (⟨nodeOf (.obj fields), []⟩ : Source).toDocument = rendered atomText
      (.obj fields) := by
    have hfuel : (nodeOf (.obj fields)).size ≤ (maxDepth + 2) *
        ((nodeOf (.obj fields)).size + 2) := by
      unfold maxDepth
      omega
    exact congrArg Prod.fst
      (expand_nodeOf ⟨nodeOf (.obj fields), []⟩ (.obj fields) hfuel hdepth)
  rw [parse?, sequence?_print hfields]
  show (Source.ofTokens? _).bind _ = _
  rw [ofTokens?_printed hfields]
  exact congrArg some hdocument

end Workplan.Yaml
