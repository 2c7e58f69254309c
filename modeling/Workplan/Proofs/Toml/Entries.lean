import Mathlib.Tactic.Lemma
import Workplan.Proofs.Toml.Documents

/-!
# The entries of a document

A statement changes one key at the top level of a document (`Statement.apply_top`): it
defines the key, where no table has been opened yet and the key is new, or it makes or
changes a table.  So no key stands twice at the top level, the integers there fit a
signed word (`IsDocument.regular`), and what is no table has been defined in front of
the first header (`Statement.get?_applyAll`), where no key may be defined again
(`Statement.nodup_topKeys`).
-/

namespace Workplan.Toml

/-- Tables that further lines may change. -/
def Item.isTable : Item → Bool
  | .table _ _ => true
  | .tables _ => true
  | _ => false

namespace Entries

variable {es es' : Entries} {key : String} {item : Item}

lemma get?_cons (e : String × Item) (es : Entries) (k : String) :
    get? k (e :: es) = if k = e.1 then some e.2 else es.get? k := by
  obtain ⟨other, value⟩ := e
  show List.lookup k ((other, value) :: es) = _
  rw [List.lookup_cons]
  by_cases hk : k = other
  · rw [if_pos hk, beq_iff_eq.mpr hk]
  · rw [if_neg hk, beq_eq_false_iff_ne.mpr hk]
    rfl

/-- Putting an item under a key changes what that key stands for, and nothing else. -/
lemma get?_put (es : Entries) (key : String) (item : Item) (k : String) :
    (es.put key item).get? k = if k = key then some item else es.get? k := by
  induction es with
  | nil => exact get?_cons (key, item) [] k
  | cons old es ih =>
    by_cases hkey : old.1 = key
    · rw [put, if_pos (beq_iff_eq.mpr hkey), get?_cons, get?_cons, hkey]
      by_cases hk : k = key
      · rw [if_pos hk, if_pos hk]
      · rw [if_neg hk, if_neg hk, if_neg hk]
    · rw [put, if_neg (by simpa using hkey), get?_cons, get?_cons, ih]
      by_cases hk : k = old.1
      · rw [if_pos hk, if_pos hk, if_neg (fun heq => hkey (hk.symm.trans heq))]
      · rw [if_neg hk, if_neg hk]

lemma get?_put_eq_none_iff {k : String} :
    (es.put key item).get? k = none ↔ k ≠ key ∧ es.get? k = none := by
  rw [get?_put]
  split
  · next heq => exact ⟨(fun h => nomatch h), fun h => absurd heq h.1⟩
  · next hne => exact ⟨fun h => ⟨hne, h⟩, And.right⟩

/-- A new key is put behind the others. -/
lemma put_of_new (h : es.get? key = none) (item : Item) :
    es.put key item = es ++ [(key, item)] := by
  induction es with
  | nil => rfl
  | cons old es ih =>
    rw [get?_cons] at h
    split at h
    · cases h
    · next hne => rw [put, if_neg (by simpa using Ne.symm hne), ih h]; rfl

lemma mem_put {e : String × Item} (h : e ∈ es.put key item) : e ∈ es ∨ e.2 = item := by
  induction es with
  | nil => exact Or.inr (congrArg Prod.snd (List.mem_singleton.mp h))
  | cons old es ih =>
    rw [put] at h
    split at h
    · rcases List.mem_cons.mp h with rfl | h
      · exact Or.inr rfl
      · exact Or.inl (List.mem_cons_of_mem _ h)
    · rcases List.mem_cons.mp h with rfl | h
      · exact Or.inl List.mem_cons_self
      · exact (ih h).imp (List.mem_cons_of_mem _) id

/-- No key is put twice. -/
lemma keys_put (es : Entries) (key : String) (item : Item) :
    (es.put key item).map Prod.fst = if key ∈ es.map Prod.fst then es.map Prod.fst
      else es.map Prod.fst ++ [key] := by
  induction es with
  | nil => rfl
  | cons old es ih =>
    rw [put]
    by_cases hkey : old.1 = key
    · rw [if_pos (beq_iff_eq.mpr hkey),
        if_pos (by rw [List.map_cons, hkey]; exact List.mem_cons_self)]
      rfl
    · rw [if_neg (by simpa using hkey), List.map_cons, List.map_cons, ih]
      by_cases hmem : key ∈ es.map Prod.fst
      · rw [if_pos hmem, if_pos (List.mem_cons_of_mem _ hmem)]
      · rw [if_neg hmem,
          if_neg (by rw [List.mem_cons, not_or]; exact ⟨Ne.symm hkey, hmem⟩)]
        rfl

theorem mem_of_get? (h : es.get? key = some item) : (key, item) ∈ es := by
  obtain ⟨front, back, rfl, -⟩ := List.lookup_eq_some_iff.mp h
  exact List.mem_append_right _ List.mem_cons_self

/-- Entries with different keys, whose integers fit a signed word. -/
structure Regular (es : Entries) : Prop where
  keys : (es.map Prod.fst).Nodup
  words : ∀ e ∈ es, ∀ w, e.2 = .int w → w.val < 0x8000000000000000

/-- Putting an item of a signed word, or of another kind, keeps entries regular. -/
lemma Regular.put (h : Regular es)
    (hitem : ∀ w, item = .int w → w.val < 0x8000000000000000) :
    Regular (es.put key item) := by
  refine ⟨?_, fun e he w hw => ?_⟩
  · rw [keys_put]
    split
    · exact h.keys
    · next hnew =>
        exact List.nodup_append.mpr ⟨h.keys, by simp,
          by simpa using fun k hk => ne_of_mem_of_not_mem hk hnew⟩
  · rcases mem_put he with he | rfl
    · exact h.words e he w hw
    · exact hitem w hw

/-! ## Changes -/

/-- A change of one key that makes or changes a table. -/
def ChangesTable (es es' : Entries) : Prop :=
  ∃ key item, es' = es.put key item ∧ item.isTable = true ∧
    ∀ old, es.get? key = some old → old.isTable = true

/-- A change inside a table leaves all other keys alone. -/
lemma update_cons {dotted : Bool} {change : Origin → Entries → Option Entries}
    {first : String} {path : List String} {origin : Origin}
    (h : update dotted change (first :: path) origin es = some es') :
    ChangesTable es es' := by
  rw [update] at h
  cases hget : es.get? first with
  | none =>
    rw [hget] at h
    obtain ⟨inner, -, h⟩ := Option.bind_eq_some_iff.mp h
    cases h
    exact ⟨first, _, rfl, rfl, fun old hold => by rw [hget] at hold; cases hold⟩
  | some found =>
    rw [hget] at h
    have hfound : ∀ {item : Item}, item.isTable = true → found.isTable = true →
        es' = es.put first item →
        ChangesTable es es' := fun hitem hfound heq =>
      ⟨first, _, heq, hitem,
        fun old hold => by rw [hget] at hold; cases hold; exact hfound⟩
    dsimp only at h
    split at h
    · next heq => cases heq
    · next heq =>
      cases heq
      split at h
      · cases h
      · obtain ⟨inner, -, h⟩ := Option.bind_eq_some_iff.mp h
        cases h
        exact hfound rfl rfl rfl
    · next heq =>
      cases heq
      obtain ⟨last, -, h⟩ := Option.bind_eq_some_iff.mp h
      cases h
      exact hfound rfl rfl rfl
    · cases h

/-- A key that is new, or one that stands for a table. -/
lemma changesTable_put {found : Option Item} (hget : es.get? key = found)
    (hfound : ∀ old ∈ found, old.isTable = true) (hitem : item.isTable = true) :
    ChangesTable es (es.put key item) :=
  ⟨key, item, rfl, hitem, fun old hold => hfound old (hget ▸ hold)⟩

/-- To open a table changes one key at the top. -/
lemma openTable_top {path : List String} (h : es.openTable path key = some es') :
    ChangesTable es es' := by
  cases path with
  | cons first path => exact update_cons h
  | nil =>
    rw [openTable, update] at h
    split at h
    · next hget =>
      cases h
      rw [← put_of_new hget]
      exact changesTable_put hget (fun old hold => by cases hold) rfl
    · next hget =>
      cases h
      exact changesTable_put hget (fun old hold => by cases hold; rfl) rfl
    · cases h

lemma openFurther_top {path : List String} (h : es.openFurther path key = some es') :
    ChangesTable es es' := by
  cases path with
  | cons first path => exact update_cons h
  | nil =>
    rw [openFurther, update] at h
    split at h
    · next hget =>
      cases h
      rw [← put_of_new hget]
      exact changesTable_put hget (fun old hold => by cases hold) rfl
    · next hget =>
      cases h
      exact changesTable_put hget (fun old hold => by cases hold; rfl) rfl
    · cases h

/-- A key with its value goes into a table, or to the top level where no
table is open. -/
lemma defineUnder_top {header path : List String}
    (h : es.defineUnder header path key item = some es') :
    (header = [] ∧ path = [] ∧ es.get? key = none ∧ es' = es.put key item) ∨
      (header ++ path ≠ [] ∧ ChangesTable es es') := by
  cases header with
  | cons first header => exact Or.inr ⟨List.cons_ne_nil _ _, update_cons h⟩
  | nil =>
    cases path with
    | cons first path =>
      exact Or.inr ⟨List.cons_ne_nil _ _,
        @update_cons es es' true _ first path .header h⟩
    | nil =>
      have h : (if (es.get? key).isSome then none else some (es ++ [(key, item)])) =
          some es' := h
      cases hget : es.get? key with
      | none =>
        rw [hget] at h
        cases h
        exact Or.inl ⟨rfl, rfl, rfl, (put_of_new hget item).symm⟩
      | some old =>
        rw [hget] at h
        cases h

/-- Changes of tables keep entries regular. -/
lemma ChangesTable.regular (h : ChangesTable es es') (hes : Regular es) :
    Regular es' := by
  obtain ⟨key, item, rfl, hitem, -⟩ := h
  refine hes.put fun w hw => ?_
  rw [hw] at hitem
  cases hitem

/-- What is no table stays as it is. -/
lemma ChangesTable.get?_iff (h : ChangesTable es es') (hitem : item.isTable = false) :
    es'.get? key = some item ↔ es.get? key = some item := by
  obtain ⟨changed, table, rfl, htable, hold⟩ := h
  rw [get?_put]
  split
  · next heq =>
    constructor
    · intro h
      rw [Option.some.inj h, hitem] at htable
      cases htable
    · intro h
      rw [hold item (heq ▸ h)] at hitem
      cases hitem
  · exact Iff.rfl

end Entries

/-! ## Statements -/

namespace Grammar

variable {cs rest : List Char} {item : Item}

/-- The integers of the grammar fit a signed word. -/
lemma Number.word_lt (h : Number cs item rest) {w : WordInt} (hw : item = .int w) :
    w.val < 0x8000000000000000 := by
  have hfloat : ∀ {negative : Bool} {ds : List Char} {e : Int},
      Reader.float negative ds e ≠ some (.int w) := by
    intro negative ds e h
    obtain ⟨n, -, h⟩ := Option.bind_eq_some_iff.mp h
    split at h
    · cases h
    · split at h <;> cases h
  cases h with
  | decimal _ _ _ _ hlt => cases hw; exact hlt
  | based _ _ _ _ hlt => cases hw; exact hlt
  | fraction _ _ _ h => exact absurd (hw ▸ h) hfloat
  | exponent _ _ _ h => exact absurd (hw ▸ h) hfloat
  | fractionExponent _ _ _ _ h => exact absurd (hw ▸ h) hfloat
  | infinite => cases hw
  | nan => cases hw

lemma Value.word_lt {w : WordInt} (h : Value cs (.int w) rest) :
    w.val < 0x8000000000000000 := by
  cases h with
  | number h => exact h.word_lt rfl

/-- The integers that a statement defines fit a signed word. -/
lemma Stated.word_lt {path : List String} {key : String} {w : WordInt}
    (h : Stated cs (.define path key (.int w)) rest) : w.val < 0x8000000000000000 := by
  cases h with
  | define _ _ hvalue => exact hvalue.word_lt

lemma Lines.word_lt {ss : List Statement} (h : Lines cs ss) {path : List String}
    {key : String} {w : WordInt} (hs : .define path key (.int w) ∈ ss) :
    w.val < 0x8000000000000000 := by
  have hline : ∀ {cs rest : List Char} {ss : List Statement}, Line cs ss rest →
      .define path key (.int w) ∈ ss →
      w.val < 0x8000000000000000 := by
    intro cs rest ss h hs
    cases h with
    | blank => cases hs
    | statement _ hstated =>
      rw [List.mem_singleton] at hs
      subst hs
      exact hstated.word_lt
  induction h with
  | last h => exact hline h hs
  | next h _ _ ih => exact (List.mem_append.mp hs).elim (hline h) ih

namespace Statement

variable {current current' : List String} {es es' : Entries}

/-- Whether a statement is no header. -/
def isDefine : Statement → Bool
  | define _ _ _ => true
  | _ => false

/-- What a statement changes at the top level: it gives a new key its item, where no
table is open, or it makes or changes a table.  Behind a header a table is open. -/
theorem apply_top {s : Statement} (h : s.apply current es = some (current', es')) :
    ((∃ key item, s = .define [] key item ∧ current = [] ∧ es.get? key = none ∧
      es' = es.put key item) ∨
      ((∀ key item, s = .define [] key item → current ≠ []) ∧ es.ChangesTable es')) ∧
    (if s.isDefine then current' = current else current' ≠ []) := by
  have hne : ∀ {path : List String} {key : String}, path ++ [key] ≠ [] := by simp
  cases s with
  | table path key =>
    obtain ⟨es₁, hopen, heq⟩ := Option.map_eq_some_iff.mp h
    cases heq
    exact ⟨Or.inr ⟨(fun _ _ heq => nomatch heq), Entries.openTable_top hopen⟩, hne⟩
  | further path key =>
    obtain ⟨es₁, hopen, heq⟩ := Option.map_eq_some_iff.mp h
    cases heq
    exact ⟨Or.inr ⟨(fun _ _ heq => nomatch heq), Entries.openFurther_top hopen⟩, hne⟩
  | define path key item =>
    obtain ⟨es₁, hdefine, heq⟩ := Option.map_eq_some_iff.mp h
    cases heq
    refine ⟨?_, rfl⟩
    rcases Entries.defineUnder_top hdefine with ⟨hcurrent, rfl, hget, hput⟩ |
      ⟨hdeep, hchanges⟩
    · exact Or.inl ⟨key, item, rfl, hcurrent, hget, hput⟩
    · refine Or.inr ⟨fun _ _ heq hcurrent => ?_, hchanges⟩
      cases heq
      rw [hcurrent] at hdeep
      exact hdeep rfl

/-- Statements keep entries regular. -/
lemma regular_applyAll {ss : List Statement}
    (hwords : ∀ path key w, define path key (.int w) ∈ ss → w.val < 0x8000000000000000)
    (hes : es.Regular) (h : applyAll current es ss = some es') : es'.Regular := by
  induction ss generalizing current es with
  | nil =>
    cases h
    exact hes
  | cons s ss ih =>
    obtain ⟨⟨current', es₁⟩, happly, h⟩ := Option.bind_eq_some_iff.mp h
    refine ih (fun path key w hw => hwords path key w (List.mem_cons_of_mem _ hw)) ?_ h
    rcases (apply_top happly).1 with ⟨key, item, rfl, -, -, rfl⟩ | ⟨-, hchanges⟩
    · refine hes.put fun w hw => hwords [] key w ?_
      rw [hw]
      exact List.mem_cons_self
    · exact hchanges.regular hes

/-- What is no table stands at the top level if it stood there before, or if it is
defined there in front of the first header. -/
theorem get?_applyAll {ss : List Statement} {key : String} {item : Item}
    (hitem : item.isTable = false) (h : applyAll current es ss = some es') :
    es'.get? key = some item ↔
      es.get? key = some item ∨ current = [] ∧
        define [] key item ∈ ss.takeWhile isDefine := by
  induction ss generalizing current es with
  | nil =>
    cases h
    exact ⟨Or.inl, fun h => h.resolve_right fun hmem => absurd hmem.2 List.not_mem_nil⟩
  | cons s ss ih =>
    obtain ⟨⟨current', es₁⟩, happly, h⟩ := Option.bind_eq_some_iff.mp h
    obtain ⟨hchange, hcurrent⟩ := apply_top happly
    rw [ih h]
    cases hs : s.isDefine with
    | false =>
      -- A header: no later statement defines anything at the top level.
      rw [hs, if_neg Bool.false_ne_true] at hcurrent
      rw [List.takeWhile_cons_of_neg (by rw [hs]; exact Bool.false_ne_true)]
      rcases hchange with ⟨_, _, rfl, -⟩ | ⟨-, hchanges⟩
      · cases hs
      · rw [hchanges.get?_iff hitem]
        simp [hcurrent]
    | true =>
      rw [hs, if_pos rfl] at hcurrent
      subst hcurrent
      rw [List.takeWhile_cons_of_pos hs, List.mem_cons]
      rcases hchange with ⟨key', item', rfl, rfl, hget, rfl⟩ | ⟨hdeep, hchanges⟩
      · rw [Entries.get?_put]
        by_cases hkey : key = key'
        · -- The key is new, so that it stands for what is defined here.
          subst hkey
          rw [if_pos rfl, hget, define.injEq]
          simp [eq_comm]
        · rw [if_neg hkey, define.injEq]
          simp [hkey]
      · have hother : ¬ (current' = [] ∧ define [] key item = s) :=
          fun h => hdeep key item h.2.symm h.1
        rw [hchanges.get?_iff hitem, and_or_left, or_iff_right hother]

/-- The key that a statement defines at the top level. -/
def topKey? : Statement → Option String
  | define [] key _ => some key
  | _ => none

/-- In front of the first header no key is defined twice, nor is one that is
there already. -/
theorem nodup_topKeys {ss : List Statement} (h : applyAll [] es ss = some es') :
    ((ss.takeWhile isDefine).filterMap topKey?).Nodup ∧
      ∀ key ∈ (ss.takeWhile isDefine).filterMap topKey?, es.get? key = none := by
  induction ss generalizing es with
  | nil => exact ⟨List.nodup_nil, fun _ hkey => nomatch hkey⟩
  | cons s ss ih =>
    obtain ⟨⟨current, es₁⟩, happly, h⟩ := Option.bind_eq_some_iff.mp h
    obtain ⟨hchange, hcurrent⟩ := apply_top happly
    cases hs : s.isDefine with
    | false =>
      rw [List.takeWhile_cons_of_neg (by rw [hs]; exact Bool.false_ne_true)]
      exact ⟨List.nodup_nil, fun _ hkey => nomatch hkey⟩
    | true =>
      rw [hs, if_pos rfl] at hcurrent
      subst hcurrent
      obtain ⟨hnodup, hnew⟩ := ih h
      rw [List.takeWhile_cons_of_pos hs]
      rcases hchange with ⟨key, item, rfl, -, hget, rfl⟩ | ⟨hdeep, key, item, rfl, -, -⟩
      · have hother : ∀ k ∈ (ss.takeWhile isDefine).filterMap topKey?, k ≠ key ∧
            es.get? k = none := fun k hk =>
          Entries.get?_put_eq_none_iff.mp (hnew k hk)
        rw [List.filterMap_cons_some
          (show topKey? (.define [] key item) = some key from rfl),
          List.forall_mem_cons]
        exact ⟨List.nodup_cons.mpr ⟨fun hmem => (hother key hmem).1 rfl, hnodup⟩, hget,
          fun k hk => (hother k hk).2⟩
      · have hnone : s.topKey? = none := by
          unfold topKey?
          split
          · exact absurd rfl (hdeep _ _ rfl)
          · rfl
        rw [List.filterMap_cons_none hnone]
        exact ⟨hnodup, fun k hk => (Entries.get?_put_eq_none_iff.mp (hnew k hk)).2⟩

end Statement

end Grammar

/-- The entries of a document are regular. -/
theorem IsDocument.regular {text : String} {es : Entries} (h : IsDocument text es) :
    es.Regular := by
  obtain ⟨cs, ss, -, hlines, happly⟩ := h
  have hempty : Entries.Regular [] := ⟨List.nodup_nil, fun _ he => nomatch he⟩
  exact Grammar.Statement.regular_applyAll
    (fun _ _ _ hs => hlines.word_lt hs) hempty happly

end Workplan.Toml
