import Mathlib.Tactic.Lemma
import Workplan.Plan.Printing
import Workplan.Proofs.Plan.Written
import Workplan.Proofs.Yaml.Meaning

/-!
# Loaded plans

What is known of a plan because it was read from a document.  The values it holds come
from parts of the document that are nested deeper than the place they have in the plan, so
a plan that is read from a document of some depth is written with no greater depth
(`Plan.depth_written_le`), and all its values are in order
(`Plan.isOrdered_of_ofDocument`).
-/

namespace Workplan

open Document (Path Failure)

/-! ## Parts of documents -/

namespace Document

lemma depthItems_le_iff {items : List Document} {n : Nat} :
    depthItems items ≤ n ↔ ∀ d ∈ items, d.depth ≤ n := by
  induction items with
  | nil => exact ⟨fun _ _ hd => absurd hd List.not_mem_nil, fun _ => Nat.zero_le _⟩
  | cons d rest ih => rw [depthItems, Nat.max_le, ih, List.forall_mem_cons]

lemma depthEntries_le_iff {entries : List (Option String × Document × Document)} {n : Nat} :
    depthEntries entries ≤ n ↔ ∀ e ∈ entries, e.2.2.depth ≤ n := by
  induction entries with
  | nil => exact ⟨fun _ _ he => absurd he List.not_mem_nil, fun _ => Nat.zero_le _⟩
  | cons e rest ih => rw [depthEntries, Nat.max_le, ih, List.forall_mem_cons]

/-- A mark adds no depth. -/
lemma depth_unmarked (d : Document) : d.unmarked.depth = d.depth := by
  match d with
  | scalar _ => rfl
  | list _ => rfl
  | table _ => rfl
  | unreadable => rfl
  | marked _ part => exact depth_unmarked part

section
variable {path : Path} {wanted : String} {d : Document} {n : Nat}

/-- The items of a list are nested less deeply than the list. -/
lemma depth_of_readItems {items : List Document} (h : readItems path wanted d = .ok items)
    (hd : d.depth ≤ n + 1) :
    ∀ item ∈ items, item.depth ≤ n := by
  rw [← depth_unmarked] at hd
  unfold readItems at h
  split at h
  · next heq =>
    obtain rfl := Except.ok.inj h
    rw [heq, depth, Nat.add_comm, Nat.add_le_add_iff_right] at hd
    exact depthItems_le_iff.mp hd
  · obtain rfl := Except.ok.inj h
    exact fun _ hitem => absurd hitem List.not_mem_nil
  · unfold wrongType at h
    split at h <;> cases h

/-- The values of a table are nested less deeply than the table. -/
lemma depth_of_readEntries {entries : List (Option String × Document × Document)}
    (h : readEntries path wanted d = .ok entries) (hd : d.depth ≤ n + 1) :
    ∀ e ∈ entries, e.2.2.depth ≤ n := by
  rw [← depth_unmarked] at hd
  unfold readEntries at h
  split at h
  · next heq =>
    obtain rfl := Except.ok.inj h
    rw [heq, depth, Nat.add_comm, Nat.add_le_add_iff_right] at hd
    exact depthEntries_le_iff.mp hd
  · obtain rfl := Except.ok.inj h
    exact fun _ he => absurd he List.not_mem_nil
  · unfold wrongType at h
    split at h <;> cases h

end

/-- Every field that was read stands in an entry. -/
lemma mem_of_readFields {σ : Type}
    {read : String → Path → Document → Option (Except Failure σ)} {path : Path}
    {seen : List String} {entries : List (Option String × Document × Document)}
    {fields : List (String × σ)} (h : readFields read path seen entries = .ok fields) :
    ∀ f ∈ fields, ∃ e ∈ entries, read f.1 (path.part e.1) e.2.2 = some (.ok f.2) := by
  induction entries generalizing seen fields with
  | nil =>
    obtain rfl := Except.ok.inj h
    exact fun _ hf => absurd hf List.not_mem_nil
  | cons e entries ih =>
    obtain ⟨label, key, value⟩ := e
    unfold readFields at h
    obtain ⟨name, -, h⟩ := exists_of_bind_eq_ok h
    split at h
    · intro f hf
      obtain ⟨e, he, hread⟩ := ih h f hf
      exact ⟨e, List.mem_cons_of_mem _ he, hread⟩
    · next result hresult =>
      split at h
      · cases h
      · obtain ⟨v, hv, h⟩ := exists_of_bind_eq_ok h
        obtain ⟨more, hmore, h⟩ := exists_of_bind_eq_ok h
        obtain rfl := Except.ok.inj h
        rw [List.forall_mem_cons]
        refine ⟨⟨_, List.mem_cons_self, by rw [hresult, hv]⟩, fun f hf => ?_⟩
        obtain ⟨e, he, hread⟩ := ih hmore f hf
        exact ⟨e, List.mem_cons_of_mem _ he, hread⟩

/-- Every result of reading a list comes from an item. -/
lemma mem_of_readEach {α : Type} {read : Path → Document → Except Failure α}
    {path : Path} {index : Nat} {items : List Document} {results : List α}
    (h : readEach read path index items = .ok results) :
    ∀ a ∈ results, ∃ d ∈ items, ∃ place, read place d = .ok a := by
  induction items generalizing index results with
  | nil =>
    obtain rfl := Except.ok.inj h
    exact fun _ ha => absurd ha List.not_mem_nil
  | cons d items ih =>
    unfold readEach at h
    obtain ⟨a, ha, h⟩ := exists_of_bind_eq_ok h
    obtain ⟨more, hmore, h⟩ := exists_of_bind_eq_ok h
    obtain rfl := Except.ok.inj h
    rw [List.forall_mem_cons]
    refine ⟨⟨d, List.mem_cons_self, _, ha⟩, fun b hb => ?_⟩
    obtain ⟨e, he, hread⟩ := ih hmore b hb
    exact ⟨e, List.mem_cons_of_mem _ he, hread⟩

end Document

/-! ## Parts of data -/

namespace Content

lemma depthItems_le_iff {items : List Content} {n : Nat} :
    depthItems items ≤ n ↔ ∀ c ∈ items, c.depth ≤ n := by
  induction items with
  | nil => exact ⟨fun _ _ hc => absurd hc List.not_mem_nil, fun _ => Nat.zero_le _⟩
  | cons c rest ih => rw [depthItems, Nat.max_le, ih, List.forall_mem_cons]

/-- Every field that was read stands in an entry. -/
lemma mem_of_readFields {σ : Type}
    {readers : List (String × (Content → Except Document.Cause σ))} {seen : List String}
    {entries : List (Content × Content)} {fields : List (String × σ)}
    (h : readFields readers seen entries = .ok fields) :
    ∀ f ∈ fields, ∃ e ∈ entries, ∃ read, (f.1, read) ∈ readers ∧ read e.2 = .ok f.2 := by
  induction entries generalizing seen fields with
  | nil =>
    obtain rfl := Except.ok.inj h
    exact fun _ hf => absurd hf List.not_mem_nil
  | cons e entries ih =>
    obtain ⟨key, value⟩ := e
    have hlater : ∀ {seen : List String} {fields : List (String × σ)},
        readFields readers seen entries = .ok fields →
        ∀ f ∈ fields, ∃ e ∈ (key, value) :: entries, ∃ read, (f.1, read) ∈ readers ∧
          read e.2 = .ok f.2 := by
      intro seen fields h f hf
      obtain ⟨e, he, hread⟩ := ih h f hf
      exact ⟨e, List.mem_cons_of_mem _ he, hread⟩
    unfold readFields at h
    obtain ⟨field, -, h⟩ := exists_of_bind_eq_ok h
    split at h
    · exact hlater h
    · next name =>
      split at h
      · exact hlater h
      · next read hlookup =>
        split at h
        · cases h
        · obtain ⟨v, hv, h⟩ := exists_of_bind_eq_ok h
          obtain ⟨more, hmore, h⟩ := exists_of_bind_eq_ok h
          obtain rfl := Except.ok.inj h
          rw [List.forall_mem_cons]
          exact ⟨⟨_, List.mem_cons_self, read, mem_of_lookup_eq_some hlookup, hv⟩,
            hlater hmore⟩

lemma mem_of_mapM {α β ε : Type} {f : α → Except ε β} {as : List α} {bs : List β}
    (h : as.mapM f = .ok bs) :
    ∀ b ∈ bs, ∃ a ∈ as, f a = .ok b := by
  induction as generalizing bs with
  | nil =>
    obtain rfl := Except.ok.inj h
    exact fun _ hb => absurd hb List.not_mem_nil
  | cons a as ih =>
    rw [List.mapM_cons] at h
    obtain ⟨b, hb, h⟩ := exists_of_bind_eq_ok h
    obtain ⟨more, hmore, h⟩ := exists_of_bind_eq_ok h
    obtain rfl := Except.ok.inj h
    rw [List.forall_mem_cons]
    refine ⟨⟨a, List.mem_cons_self, hb⟩, fun c hc => ?_⟩
    obtain ⟨a', ha', hread⟩ := ih hmore c hc
    exact ⟨a', List.mem_cons_of_mem _ ha', hread⟩

end Content

/-! ## Bodies -/

namespace StepBody

/-- The entries of a body that do not give its kind are among those held back. -/
lemma mem_of_splitEntries {kind : Option StepKind}
    {others entries : List (Content × Content)} {k : StepKind}
    {rest : List (Content × Content)}
    (h : splitEntries kind others entries = .ok (k, rest)) :
    ∀ e ∈ rest, e ∈ others ∨ e ∈ entries := by
  induction entries generalizing kind others with
  | nil =>
    unfold splitEntries at h
    split at h
    · obtain ⟨-, rfl⟩ := Prod.mk.inj (Except.ok.inj h)
      exact fun e he => Or.inl (List.mem_reverse.mp he)
    · cases h
  | cons e entries ih =>
    unfold splitEntries at h
    split at h
    · next heq => cases heq
    -- An entry that gives the kind is held back no longer; every other one is.
    · next value rest' heq =>
      obtain ⟨rfl, rfl⟩ := List.cons.inj heq
      split at h
      · cases h
      · obtain ⟨k', -, h⟩ := exists_of_bind_eq_ok h
        exact fun e he => (ih h e he).imp_right (List.mem_cons_of_mem _)
    · next entry rest' _ heq =>
      obtain ⟨rfl, rfl⟩ := List.cons.inj heq
      intro e' he'
      rcases ih h e' he' with he' | he'
      · rcases List.mem_cons.mp he' with rfl | he'
        · exact Or.inr List.mem_cons_self
        · exact Or.inl he'
      · exact Or.inr (List.mem_cons_of_mem _ he')

/-- The items that were read are nested less deeply than the list they come from. -/
lemma fits_of_readFields {entries : List (Content × Content)}
    {fields : List (String × IterateField)} {vs : List Json} {n : Nat}
    (h : Content.readFields iterateReaders [] entries = .ok fields)
    (hvs : fields.lookup "items" = some (.items (some vs)))
    (hentries : ∀ e ∈ entries, e.2.depth ≤ n + 1) :
    ∀ v ∈ vs, v.Fits n := by
  obtain ⟨e, he, read, hreader, hread⟩ :=
    Content.mem_of_readFields h _ (mem_of_lookup_eq_some hvs)
  have hitems : (e.2.readOption readValues).map IterateField.items =
      .ok (.items (some vs)) := by
    have heq : read = fun c => (c.readOption readValues).map IterateField.items := by
      simpa [iterateReaders] using hreader
    rw [heq] at hread
    exact hread
  obtain ⟨o, ho, heq⟩ := exists_of_map_eq_ok hitems
  obtain rfl := IterateField.items.inj heq
  -- The items are given, so what is read is a list.
  unfold Content.readOption at ho
  split at ho
  · cases ho
  · obtain ⟨vs', hvs', heq⟩ := exists_of_map_eq_ok ho
    obtain rfl := Option.some.inj heq
    obtain ⟨items, hlist, hread⟩ := exists_of_bind_eq_ok hvs'
    have hdepth := hentries e he
    unfold Content.readItems at hlist
    split at hlist
    · next heq =>
      obtain rfl := Except.ok.inj hlist
      rw [heq, Content.depth, Nat.add_comm, Nat.add_le_add_iff_right] at hdepth
      intro v hv
      obtain ⟨c, hc, hjson⟩ := Content.mem_of_mapM hread v hv
      exact (Content.fits_toJson c hjson).mono (Content.depthItems_le_iff.mp hdepth c hc)
    · cases hlist

/-- The values that a body lists are nested less deeply than the list they come from. -/
lemma fits_of_ofContent {entries : List (Content × Content)} {body : StepBody} {n : Nat}
    (h : ofContent entries = .ok body) (hentries : ∀ e ∈ entries, e.2.depth ≤ n + 1) :
    ∀ v ∈ body.values, v.Fits n := by
  unfold ofContent at h
  obtain ⟨⟨k, others⟩, hsplit, h⟩ := exists_of_bind_eq_ok h
  have hothers : ∀ e ∈ others, e.2.depth ≤ n + 1 := fun e he =>
    hentries e ((mem_of_splitEntries hsplit e he).resolve_left List.not_mem_nil)
  have hnone : ∀ b : StepBody, b.values = [] → b = body → ∀ v ∈ body.values, v.Fits n := by
    rintro b hb rfl v hv
    rw [hb] at hv
    exact absurd hv List.not_mem_nil
  -- Of the kinds of body only the last one lists values.
  cases k with
  | prompt =>
    obtain ⟨fields, -, h⟩ := exists_of_bind_eq_ok h
    split at h
    · exact hnone _ rfl (Except.ok.inj h)
    · cases h
  | sequence =>
    obtain ⟨fields, -, h⟩ := exists_of_bind_eq_ok h
    exact hnone _ rfl (Except.ok.inj h)
  | parallel =>
    obtain ⟨fields, -, h⟩ := exists_of_bind_eq_ok h
    exact hnone _ rfl (Except.ok.inj h)
  | iterate =>
    obtain ⟨fields, hfields, h⟩ := exists_of_bind_eq_ok h
    dsimp only at h
    split at h
    · obtain rfl := Except.ok.inj h
      intro v hv
      unfold values at hv
      split at hv
      · next vs key agent heq =>
        obtain ⟨hitems, -, -⟩ := StepBody.iterate.inj heq
        split at hitems
        · next hlookup =>
          rw [hitems] at hlookup
          exact fits_of_readFields hfields hlookup hothers v hv
        · cases hitems
      · exact absurd hv List.not_mem_nil
    · cases h

end StepBody

/-! ## Steps -/

namespace StepSpec

/-- What is held back of a step is nested no deeper than its entries. -/
lemma depth_of_readEntriesInto {path : Path} {acc parts : Partial} {n : Nat}
    {entries : List (Option String × Document × Document)}
    (h : readEntriesInto path acc entries = .ok parts)
    (hacc : ∀ e ∈ acc.held, e.2.depth ≤ n) (hentries : ∀ e ∈ entries, e.2.2.depth ≤ n) :
    ∀ e ∈ parts.held, e.2.depth ≤ n := by
  induction entries generalizing acc with
  | nil =>
    obtain rfl := Except.ok.inj h
    exact fun e he => hacc e (List.mem_reverse.mp he)
  | cons e entries ih =>
    obtain ⟨label, key, value⟩ := e
    have hrest : ∀ e ∈ entries, e.2.2.depth ≤ n :=
      fun e he => hentries e (List.mem_cons_of_mem _ he)
    unfold readEntriesInto at h
    obtain ⟨name, -, h⟩ := exists_of_bind_eq_ok h
    dsimp only at h
    split at h
    · split at h
      · cases h
      · obtain ⟨v, -, h⟩ := exists_of_bind_eq_ok h
        exact ih h hacc hrest
    · split at h
      · split at h
        · cases h
        · obtain ⟨v, -, h⟩ := exists_of_bind_eq_ok h
          exact ih h hacc hrest
      · split at h
        · split at h
          · cases h
          · obtain ⟨v, -, h⟩ := exists_of_bind_eq_ok h
            exact ih h hacc hrest
        -- Only an entry that no field claims is held back.
        · obtain ⟨c, hc, h⟩ := exists_of_bind_eq_ok h
          refine ih h ?_ hrest
          rw [List.forall_mem_cons]
          have hdepth := Document.depth_toContent value hc
          exact ⟨Nat.le_trans hdepth (hentries _ List.mem_cons_self), hacc⟩

/-- The values of a step are nested less deeply than the step, by the step and the list
they stand in. -/
lemma fits_of_ofDocument {path : Path} {d : Document} {s : StepSpec} {n : Nat}
    (h : ofDocument path d = .ok s) (hd : d.depth ≤ n + 2) :
    ∀ v ∈ s.body.values, v.Fits n := by
  unfold ofDocument at h
  dsimp only at h
  split at h
  · cases h
  · obtain ⟨entries, hentries, h⟩ := exists_of_bind_eq_ok h
    obtain ⟨parts, hparts, h⟩ := exists_of_bind_eq_ok h
    obtain ⟨body, hbody, h⟩ := exists_of_bind_eq_ok h
    obtain rfl := Except.ok.inj h
    have hdepth := Document.depth_of_readEntries hentries hd
    have hheld :=
      depth_of_readEntriesInto hparts (fun e he => absurd he List.not_mem_nil) hdepth
    exact StepBody.fits_of_ofContent (exists_of_placed_eq_ok hbody) hheld

end StepSpec

/-! ## Plans -/

namespace Plan

/-- Whether the values that a plan holds fit where they stand, in a document that is
nested so deep. -/
def Fits (n : Nat) (p : Plan) : Prop :=
  (∀ e ∈ p.seed.entries, e.2.Fits (n + 2)) ∧ ∀ s ∈ p.steps, ∀ v ∈ s.body.values, v.Fits n

/-- The values of a store lie one level deeper than the store. -/
lemma fits_of_readStore {path : Path} {d : Document} {seed : Store} {n : Nat}
    (h : readStore path d = .ok seed) (hd : d.depth ≤ n + 1) :
    ∀ e ∈ seed.entries, e.2.Fits n := by
  have hread : ∀ (entries : List (Option String × Document × Document))
      (es : List (String × Json)),
      readStoreEntries path entries = .ok es → (∀ e ∈ entries, e.2.2.depth ≤ n) →
        ∀ e ∈ es, e.2.Fits n := by
    intro entries
    induction entries with
    | nil =>
      rintro es h -
      obtain rfl := Except.ok.inj h
      exact fun _ he => absurd he List.not_mem_nil
    | cons e entries ih =>
      intro es h hentries
      obtain ⟨name, -, h⟩ := exists_of_bind_eq_ok h
      obtain ⟨v, hv, h⟩ := exists_of_bind_eq_ok h
      obtain ⟨more, hmore, h⟩ := exists_of_bind_eq_ok h
      obtain rfl := Except.ok.inj h
      rw [List.forall_mem_cons] at hentries ⊢
      exact ⟨(Document.fits_toJson _ hv).mono hentries.1, ih more hmore hentries.2⟩
  obtain ⟨entries, hentries, h⟩ := exists_of_bind_eq_ok h
  obtain ⟨es, hes, h⟩ := exists_of_bind_eq_ok h
  obtain rfl := Except.ok.inj h
  have hfits := hread entries es hes (Document.depth_of_readEntries hentries hd)
  have hstore : (Store.ofEntries es).entries = Fields.ofEntries es :=
    Store.entries_setAll es .empty
  rw [hstore]
  exact Fields.forall_mem_ofEntries (P := fun e : String × Json => e.2.Fits n) hfits

/-- The values of steps lie three levels deeper than the steps. -/
lemma fits_of_readSteps {path : Path} {d : Document} {steps : List StepSpec} {n : Nat}
    (h : readSteps path d = .ok steps) (hd : d.depth ≤ n + 3) :
    ∀ s ∈ steps, ∀ v ∈ s.body.values, v.Fits n := by
  obtain ⟨items, hitems, heach⟩ := exists_of_bind_eq_ok h
  have hdepth := Document.depth_of_readItems hitems hd
  intro s hs
  obtain ⟨item, hitem, place, hread⟩ := Document.mem_of_readEach heach s hs
  exact StepSpec.fits_of_ofDocument hread (hdepth item hitem)

/-- The values of a plan fit into the document it was read from. -/
theorem fits_of_ofDocument {d : Document} {p : Plan} {n : Nat}
    (h : ofDocument .yaml d = .ok p) (hd : d.depth ≤ n + 4) : p.Fits n := by
  obtain ⟨entries, hentries, h⟩ := exists_of_bind_eq_ok h
  obtain ⟨fields, hfields, h⟩ := exists_of_bind_eq_ok h
  have hdepth := Document.depth_of_readEntries hentries hd
  have hmem := Document.mem_of_readFields hfields
  unfold ofFields at h
  split at h
  · obtain rfl := Except.ok.inj h
    constructor
    · intro e he
      dsimp only at he
      split at he
      · next seed hlookup =>
        obtain ⟨entry, hentry, hread⟩ := hmem _ (mem_of_lookup_eq_some hlookup)
        obtain ⟨s, hs, heq⟩ := exists_of_map_eq_ok (Option.some.inj hread)
        obtain rfl := Field.store.inj heq
        exact fits_of_readStore hs (hdepth entry hentry) e he
      · exact absurd he List.not_mem_nil
    · intro s hs
      dsimp only at hs
      split at hs
      · next steps hlookup =>
        obtain ⟨entry, hentry, hread⟩ := hmem _ (mem_of_lookup_eq_some hlookup)
        obtain ⟨t, ht, heq⟩ := exists_of_map_eq_ok (Option.some.inj hread)
        obtain rfl := Field.steps.inj heq
        exact fits_of_readSteps ht (hdepth entry hentry) s hs
      · exact absurd hs List.not_mem_nil
  · cases h

/-- A plan whose values fit has ordered values. -/
theorem Fits.isOrdered {p : Plan} {n : Nat} (h : p.Fits n) : p.IsOrdered :=
  ⟨fun e he => (h.1 e he).1, fun s hs v hv => (h.2 s hs v hv).1⟩

end Plan

/-! ## Depth of written plans -/

lemma depth_optional_le {α : Type} {name : String} {o : Option α} {f : α → Json} {n : Nat}
    (h : ∀ a, o = some a → (f a).depth ≤ n) :
    ∀ e ∈ optional name (o.map f), e.2.depth ≤ n := by
  cases o with
  | none => exact fun e he => absurd he List.not_mem_nil
  | some a => exact List.forall_mem_singleton.mpr (h a rfl)

lemma ExecutorSpec.depth_written_le (e : ExecutorSpec) : e.written.depth ≤ 2 := by
  have htexts : ∀ ss : List String, (Json.ofTexts ss).depth ≤ 1 := fun ss =>
    Json.depth_arr_le (List.forall_mem_map.mpr fun _ _ => Nat.zero_le _)
  have hparameters : ∀ p ∈ e.writtenParameters, p.2.depth ≤ 1 := by
    cases e with
    | command program args =>
      rw [writtenParameters, List.forall_mem_cons, List.forall_mem_singleton]
      exact ⟨Nat.zero_le _, htexts args⟩
    | _ => simp [writtenParameters, Json.depth, Json.ofWord]
  rw [written_eq]
  exact Json.depth_obj_le (List.forall_mem_cons.mpr ⟨Nat.zero_le _, hparameters⟩)

/-- What a body is written as is nested one level deeper than the values it lists, and
deep enough for its executors. -/
lemma StepBody.depth_writtenFields_le {body : StepBody} {n : Nat}
    (h : ∀ v ∈ body.values, v.depth ≤ n) (hn : 2 ≤ n) :
    ∀ e ∈ body.writtenFields, e.2.depth ≤ n + 1 := by
  have hexecutors : ∀ es : List ExecutorSpec,
      (Json.arr (es.map ExecutorSpec.written)).depth ≤ n + 1 := fun es =>
    Json.depth_arr_le (List.forall_mem_map.mpr fun e _ =>
      Nat.le_trans e.depth_written_le hn)
  cases body with
  | prompt text => exact List.forall_mem_singleton.mpr (Nat.zero_le _)
  | sequence executors | parallel executors =>
    exact List.forall_mem_singleton.mpr (hexecutors executors)
  | iterate items key agent =>
    rw [writtenFields, List.forall_mem_append, List.forall_mem_append,
      List.forall_mem_singleton]
    refine ⟨⟨depth_optional_le ?_, depth_optional_le fun _ _ => Nat.zero_le _⟩, ?_⟩
    · rintro vs rfl
      exact Json.depth_arr_le h
    · exact Nat.le_trans agent.depth_written_le (by omega)

/-- A written step is nested two levels deeper than the values it lists, and deep enough
for its executors. -/
lemma StepSpec.depth_written_le {s : StepSpec} {n : Nat}
    (h : ∀ v ∈ s.body.values, v.depth ≤ n) (hn : 2 ≤ n) :
    s.written.depth ≤ n + 2 := by
  have hhandler : ∀ {name : String} (handler : Option ExecutorSpec),
      ∀ e ∈ optional name (handler.map ExecutorSpec.written), e.2.depth ≤ n + 1 := fun _ =>
    depth_optional_le fun e _ => Nat.le_trans e.depth_written_le (by omega)
  have hfields : ∀ e ∈ optional "description" (s.description.map .str)
      ++ optional "on_success" (s.onSuccess.map ExecutorSpec.written)
      ++ optional "on_fail" (s.onFail.map ExecutorSpec.written)
      ++ ("kind", Json.str s.kind.name) :: s.body.writtenFields, e.2.depth ≤ n + 1 := by
    rw [List.forall_mem_append, List.forall_mem_append, List.forall_mem_append,
      List.forall_mem_cons]
    exact ⟨⟨⟨depth_optional_le fun _ _ => Nat.zero_le _, hhandler s.onSuccess⟩,
      hhandler s.onFail⟩, Nat.zero_le _, StepBody.depth_writtenFields_le h hn⟩
  exact Json.depth_obj_le hfields

/-- A written plan is nested four levels deeper than the items of its steps. -/
theorem Plan.depth_written_le {p : Plan} {n : Nat} (h : p.Fits n) (hn : 2 ≤ n) :
    p.written.depth ≤ n + 4 := by
  have hstore : ∀ e ∈ (if p.seed.isEmpty then [] else [("store", p.seed.snapshot)]),
      e.2.depth ≤ n + 3 := by
    split
    · exact fun e he => absurd he List.not_mem_nil
    · have hsnapshot : p.seed.snapshot.depth ≤ n + 3 :=
        Json.depth_obj_le fun e he => (h.1 e he).2
      exact List.forall_mem_singleton.mpr hsnapshot
  have hsteps : (Json.arr (p.steps.map StepSpec.written)).depth ≤ n + 3 :=
    Json.depth_arr_le (List.forall_mem_map.mpr fun s hs =>
      s.depth_written_le (fun v hv => (h.2 s hs v hv).2) hn)
  have hfields : ∀ e ∈ ("name", Json.str p.name) :: optional "prompt" (p.prompt.map .str)
      ++ (if p.seed.isEmpty then [] else [("store", p.seed.snapshot)]) ++
        [("steps", .arr (p.steps.map StepSpec.written))],
      e.2.depth ≤ n + 3 := by
    rw [List.forall_mem_append, List.forall_mem_append, List.forall_mem_cons,
      List.forall_mem_singleton]
    exact ⟨⟨⟨Nat.zero_le _, depth_optional_le fun _ _ => Nat.zero_le _⟩, hstore⟩, hsteps⟩
  exact Json.depth_obj_le hfields

end Workplan
