import Workplan.Proofs.Plan.Loaded

/-!
# Printed plans are loaded again

Printing a plan that was loaded and loading the text again gives the same plan, whatever
texts, numbers and names it holds (`Plan.load_toYaml_of_load`).  The printed text is
scanned into the tokens of the plan's value, these are one node, the node is the document
of the value, and the document is read as the plan.
-/

namespace Workplan.Plan

/-- A valid plan whose values are in order and not nested too deeply is loaded from what
it is printed as. -/
theorem load_toYaml {p : Plan} (hvalid : p.validate = .ok ())
    (hfits : p.Fits (Yaml.maxDepth - 4)) :
    load p.toYaml = .ok p := by
  obtain ⟨fields, hfields, hne⟩ : ∃ fields, p.written = .obj fields ∧ fields ≠ [] :=
    ⟨_, rfl, List.cons_ne_nil _ _⟩
  have hdepth : (Json.obj fields).depth ≤ Yaml.maxDepth := by
    rw [← hfields]
    exact depth_written_le hfits (by decide)
  have hparse : Yaml.parse? p.toYaml =
      some (Document.rendered Yaml.atomText p.written) := by
    rw [toYaml, hfields]
    exact Yaml.parse?_print hne hdepth
  have hread := ofDocument_written Yaml.atomText .yaml hfits.isOrdered
  have hplan : ofYaml p.toYaml = .ok p := by
    rw [ofYaml, hparse]
    dsimp only
    rw [hread]
  rw [load, hplan]
  dsimp only
  rw [hvalid]

/-- What is known of a plan that was loaded. -/
theorem of_load {text : String} {p : Plan} (h : load text = .ok p) :
    p.validate = .ok () ∧ p.Fits (Yaml.maxDepth - 4) := by
  unfold load at h
  split at h
  · cases h
  · next q hplan =>
    split at h
    · cases h
    · next hvalid =>
      obtain rfl := Except.ok.inj h
      refine ⟨hvalid, ?_⟩
      unfold ofYaml at hplan
      split at hplan
      · cases hplan
      · next d hparse =>
        split at hplan
        · next r hread =>
          obtain rfl := Except.ok.inj hplan
          exact fits_of_ofDocument hread (Yaml.depth_parse? hparse)
        · cases hplan

/-- A plan that was loaded is loaded again from what it is printed as, and is printed the
same again. -/
theorem load_toYaml_of_load {text : String} {p : Plan} (h : load text = .ok p) :
    load p.toYaml = .ok p ∧ p.isStable = true := by
  obtain ⟨hvalid, hfits⟩ := of_load h
  have hload := load_toYaml hvalid hfits
  refine ⟨hload, ?_⟩
  unfold isStable
  simp only [hload, beq_self_eq_true]

/-- A plan whose texts look like values, structure and indentation. -/
def lookalikes : Plan where
  name := "a: b"
  prompt := some "first\n  - second\n"
  seed := ⟨[("007", .arr [.null, .str "null"])], List.pairwise_singleton _ _⟩
  steps :=
    [⟨some "", none, some (.fail "#"),
      .iterate (some [.int ⟨1, by decide, by decide⟩, .str "1"]) none .echo⟩]

/-- A text with that plan. -/
def lookalikesText : String :=
  "name: 'a: b'\nprompt: |\n  first\n    - second\n" ++
    "store:\n  '007':\n  - null\n  - 'null'\n"
    ++ "steps:\n- description: ''\n  on_fail:\n    type: fail\n    message: '#'\n"
    ++ "  kind: iterate\n  items:\n  - 1\n  - '1'\n  agent:\n    type: echo\n"

set_option maxRecDepth 10000 in
theorem load_toYaml_of_load_lookalikes :
    load lookalikesText = .ok lookalikes ∧ load lookalikes.toYaml = .ok lookalikes ∧
      lookalikes.isStable = true := by
  have hprinted : lookalikes.toYaml = lookalikesText := by decide
  have hfits : lookalikes.Fits (Yaml.maxDepth - 4) := by
    simp [Fits, lookalikes, StepBody.values, Json.Fits, Json.Ordered, Json.OrderedItems,
      Json.depth, Json.depthItems, Yaml.maxDepth]
  have hload : load lookalikesText = .ok lookalikes := by
    rw [← hprinted]
    exact load_toYaml rfl hfits
  exact ⟨hload, load_toYaml_of_load hload⟩

end Workplan.Plan
