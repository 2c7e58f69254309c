import Mathlib.Tactic.Lemma
import Workplan.Document.Reading
import Workplan.Proofs.Document.Rendered

/-!
# Records are read by name

A record is read entry by entry, but what comes of it depends only on what its names stand
for: where no name occurs twice, each field that is known is read from the value of its
name, wherever it stands (`Content.readFields_named`, `Document.readFields_named`).
-/

namespace Workplan

open Document (rendered renderedFields Path Failure Cause)

/-! ## Names -/

namespace Fields

variable {α : Type}

/-- No name occurs twice. -/
def Distinct (fields : List (String × α)) : Prop :=
  (fields.map Prod.fst).Nodup

instance (fields : List (String × α)) : Decidable (Distinct fields) :=
  inferInstanceAs (Decidable (fields.map Prod.fst).Nodup)

theorem distinct_cons {e : String × α} {fields : List (String × α)} :
    Distinct (e :: fields) ↔ (∀ e' ∈ fields, e'.1 ≠ e.1) ∧ Distinct fields := by
  unfold Distinct
  rw [List.map_cons, List.nodup_cons, List.mem_map]
  constructor
  · rintro ⟨hfresh, hrest⟩
    exact ⟨fun e' he' hname => hfresh ⟨e', he', hname⟩, hrest⟩
  · rintro ⟨hfresh, hrest⟩
    exact ⟨fun ⟨e', he', hname⟩ => hfresh e' he' hname, hrest⟩

theorem Ordered.distinct {fields : List (String × α)} (h : Ordered fields) :
    Distinct fields := by
  unfold Distinct
  rw [List.Nodup, List.pairwise_map]
  refine List.Pairwise.imp ?_ h
  intro a b (hlt : a.1 < b.1) heq
  exact String.lt_irrefl b.1 (heq ▸ hlt)

theorem lookup_cons_self (name : String) (value : α) (fields : List (String × α)) :
    ((name, value) :: fields).lookup name = some value :=
  List.lookup_cons_self

theorem lookup_cons_of_ne {name : String} {e : String × α} (fields : List (String × α))
    (h : e.1 ≠ name) :
    (e :: fields).lookup name = fields.lookup name := by
  obtain ⟨other, value⟩ := e
  have hne : (name == other) = false := beq_eq_false_iff_ne.mpr (Ne.symm h)
  rw [List.lookup_cons, hne]

theorem lookup_eq_none_of_fresh {name : String} {fields : List (String × α)}
    (h : ∀ e ∈ fields, e.1 ≠ name) :
    fields.lookup name = none := by
  induction fields with
  | nil => rfl
  | cons e rest ih =>
    rw [List.forall_mem_cons] at h
    rw [lookup_cons_of_ne rest h.1, ih h.2]

/-- Where no name occurs twice, each entry is what its name stands for. -/
theorem lookup_of_mem {fields : List (String × α)} (h : Distinct fields) {e : String × α}
    (he : e ∈ fields) :
    fields.lookup e.1 = some e.2 := by
  induction fields with
  | nil => cases he
  | cons head rest ih =>
    rw [distinct_cons] at h
    rcases List.mem_cons.mp he with rfl | hrest
    · exact lookup_cons_self e.1 e.2 rest
    · rw [lookup_cons_of_ne rest (Ne.symm (h.1 e hrest)), ih h.2 hrest]

theorem lookup_eq (name : String) (fields : List (String × α)) :
    lookup name fields = fields.lookup name := by
  induction fields with
  | nil => rfl
  | cons e rest ih =>
    by_cases h : e.1 = name
    · subst h
      rw [lookup, if_pos rfl, lookup_cons_self]
    · rw [lookup_cons_of_ne rest h, ← ih, lookup, if_neg (Ne.symm h)]

/-- Bringing entries into order does not change what their names stand for. -/
theorem lookup_ofEntries {entries : List (String × α)} (h : Distinct entries)
    (name : String) :
    (ofEntries entries).lookup name = entries.lookup name := by
  -- What has been collected gives way to the entries that are still to come.
  have hfold : ∀ fields : List (String × α),
      (entries.foldl (fun fields e => insert e.1 e.2 fields) fields).lookup name =
        (entries.lookup name).or (fields.lookup name) := by
    induction entries with
    | nil => exact fun fields => rfl
    | cons e rest ih =>
      intro fields
      rw [distinct_cons] at h
      rw [List.foldl_cons, ih h.2, ← lookup_eq name (insert e.1 e.2 fields)]
      by_cases hname : e.1 = name
      · subst hname
        rw [lookup_insert_self, lookup_eq_none_of_fresh h.1, lookup_cons_self]
        rfl
      · rw [lookup_insert_of_ne e.2 fields (Ne.symm hname), lookup_eq,
          lookup_cons_of_ne rest hname]
  rw [ofEntries, hfold []]
  exact Option.or_none

/-- Where a name stands for a value, it does so in one entry, and the entries around it
have other names. -/
lemma exists_tagged {tag : String} {value : α} {fields : List (String × α)}
    (h : Distinct fields) (hvalue : fields.lookup tag = some value) :
    ∃ front back, fields = front ++ (tag, value) :: back ∧
      ∀ e ∈ front ++ back, e.1 ≠ tag := by
  obtain ⟨front, back, rfl, -⟩ := List.lookup_eq_some_iff.mp hvalue
  have hmiddle : Distinct ((tag, value) :: (front ++ back)) :=
    (List.perm_middle.map Prod.fst).nodup_iff.mp h
  exact ⟨front, back, rfl, (distinct_cons.mp hmiddle).1⟩

/-- Dropping entries by their names leaves what the other names stand for. -/
theorem lookup_filter {p : String → Bool} {name : String} (h : p name = true)
    (fields : List (String × α)) :
    (fields.filter fun e => p e.1).lookup name = fields.lookup name := by
  induction fields with
  | nil => rfl
  | cons e rest ih =>
    by_cases hname : e.1 = name
    · obtain ⟨other, value⟩ := e
      obtain rfl : other = name := hname
      rw [List.filter_cons, if_pos h, lookup_cons_self, lookup_cons_self]
    · rw [lookup_cons_of_ne rest hname, ← ih, List.filter_cons]
      split
      · exact lookup_cons_of_ne _ hname
      · rfl

theorem Distinct.filter {fields : List (String × α)} (h : Distinct fields)
    (keep : String × α → Bool) :
    Distinct (fields.filter keep) :=
  List.Nodup.sublist (List.filter_sublist.map Prod.fst) h

end Fields

/-- A record in which no name occurs twice. -/
structure Json.IsRecord (v : Json) (fields : List (String × Json)) : Prop where
  eq : v = .obj fields
  distinct : Fields.Distinct fields

/-! ## Reading by name -/

theorem mem_of_lookup_eq_some {β : Type} {l : List (String × β)} {name : String} {b : β}
    (h : l.lookup name = some b) : (name, b) ∈ l := by
  obtain ⟨front, back, rfl, -⟩ := List.lookup_eq_some_iff.mp h
  exact List.mem_append_right front List.mem_cons_self

/-- Where no name occurs twice, the entries say what the names stand for. -/
theorem Fields.lookup_eq_some_iff {α : Type} {fields : List (String × α)}
    (h : Distinct fields) {name : String} {value : α} :
    fields.lookup name = some value ↔ (name, value) ∈ fields :=
  ⟨mem_of_lookup_eq_some, fun hmem => lookup_of_mem h hmem⟩

/-- Reads fields one after another, each that is known by what its name asks for, and
drops the others. -/
def readNamed {α φ σ : Type} (read : String → α → Option (Except φ σ)) :
    List (String × α) → Except φ (List (String × σ))
  | [] => .ok []
  | (name, x) :: rest =>
    match read name x with
    | none => readNamed read rest
    | some result => do
      let v ← result
      return (name, v) :: (← readNamed read rest)

section

variable {α φ σ : Type} {read : String → α → Option (Except φ σ)}
  {fields fields' : List (String × α)}

/-- All fields together can be read if each of those that are known can. -/
theorem readNamed_ok_iff :
    (∃ out, readNamed read fields = .ok out) ↔
      ∀ e ∈ fields, ∀ result, read e.1 e.2 = some result → ∃ s, result = .ok s := by
  induction fields with
  | nil => simp [readNamed]
  | cons e rest ih =>
    obtain ⟨name, x⟩ := e
    rw [List.forall_mem_cons, ← ih, readNamed]
    cases hread : read name x with
    | none => simp
    | some result =>
      cases result with
      | error e => simp [bind, Except.bind]
      | ok s => cases readNamed read rest <;> simp [bind, Except.bind, pure, Except.pure]

/-- What has been read under a name was read from what the name stood for. -/
theorem readNamed_lookup (hdistinct : Fields.Distinct fields) {out : List (String × σ)}
    (h : readNamed read fields = .ok out) (name : String) :
    out.lookup name = (fields.lookup name).bind fun x =>
      (read name x).bind Except.toOption := by
  induction fields generalizing out with
  | nil =>
    obtain rfl := Except.ok.inj h
    rfl
  | cons e rest ih =>
    obtain ⟨other, x⟩ := e
    obtain ⟨hfresh, hrest⟩ := Fields.distinct_cons.mp hdistinct
    rw [readNamed] at h
    -- A field that is not known leaves no result, and is not asked for by its name either.
    cases hread : read other x with
    | none =>
      rw [hread] at h
      rw [ih hrest h]
      by_cases hname : other = name
      · subst hname
        rw [Fields.lookup_eq_none_of_fresh hfresh, Fields.lookup_cons_self,
          Option.bind_some, hread]
        rfl
      · rw [Fields.lookup_cons_of_ne rest hname]
    | some result =>
      rw [hread] at h
      dsimp only at h
      obtain ⟨s, rfl, hs⟩ := exists_of_bind_eq_ok h
      obtain ⟨more, hmore, hout⟩ := exists_of_bind_eq_ok hs
      obtain rfl := Except.ok.inj hout
      by_cases hname : other = name
      · subst hname
        rw [Fields.lookup_cons_self, Fields.lookup_cons_self, Option.bind_some, hread]
        rfl
      · rw [Fields.lookup_cons_of_ne more hname, Fields.lookup_cons_of_ne rest hname,
          ih hrest hmore]

/-- What is known of fields is known of others that have all of it. -/
lemma lookup_bind_of_subset (hdistinct : Fields.Distinct fields)
    (hdistinct' : Fields.Distinct fields') (hsub : ∀ e ∈ fields, (read e.1 e.2).isSome →
      e ∈ fields') {name : String} {s : σ}
    (hs : ((fields.lookup name).bind fun x => (read name x).bind Except.toOption) =
      some s) :
    ((fields'.lookup name).bind fun x => (read name x).bind Except.toOption) = some s := by
  obtain ⟨x, hx, hread⟩ := Option.bind_eq_some_iff.mp hs
  obtain ⟨result, hresult, -⟩ := Option.bind_eq_some_iff.mp hread
  have hmem : (name, x) ∈ fields' :=
    hsub (name, x) ((Fields.lookup_eq_some_iff hdistinct).mp hx)
      (Option.isSome_of_eq_some hresult)
  rw [(Fields.lookup_eq_some_iff hdistinct').mpr hmem]
  exact hread

/-- Fields can be read if others can that have all that is known of them. -/
lemma readNamed_ok_of_subset (hsub : ∀ e ∈ fields, (read e.1 e.2).isSome → e ∈ fields')
    (h : ∃ out, readNamed read fields' = .ok out) :
    ∃ out, readNamed read fields = .ok out := by
  rw [readNamed_ok_iff] at h ⊢
  intro e he result hresult
  exact h e (hsub e he (Option.isSome_of_eq_some hresult)) result hresult

/-- Fields that agree wherever something is known are read alike. -/
theorem readNamed_rel (hdistinct : Fields.Distinct fields)
    (hdistinct' : Fields.Distinct fields')
    (hsame : ∀ e, (read e.1 e.2).isSome → (e ∈ fields ↔ e ∈ fields')) :
    Option.Rel (fun out out' => ∀ name, out.lookup name = out'.lookup name)
      (readNamed read fields).toOption (readNamed read fields').toOption := by
  have hsub : ∀ e ∈ fields, (read e.1 e.2).isSome → e ∈ fields' :=
    fun e he hsome => (hsame e hsome).mp he
  have hsub' : ∀ e ∈ fields', (read e.1 e.2).isSome → e ∈ fields :=
    fun e he hsome => (hsame e hsome).mpr he
  cases hout : readNamed read fields with
  | ok out =>
    obtain ⟨out', hout'⟩ := readNamed_ok_of_subset hsub' ⟨out, hout⟩
    rw [hout']
    refine .some fun name => Option.ext fun s => ?_
    rw [readNamed_lookup hdistinct hout, readNamed_lookup hdistinct' hout']
    exact ⟨lookup_bind_of_subset hdistinct hdistinct' hsub,
      lookup_bind_of_subset hdistinct' hdistinct hsub'⟩
  | error error =>
    cases hout' : readNamed read fields' with
    | ok out' =>
      obtain ⟨out, h⟩ := readNamed_ok_of_subset hsub ⟨out', hout'⟩
      rw [hout] at h
      cases h
    | error error' => exact .none

end

/-! ## Held-back records -/

namespace Content

variable {α σ : Type} {readers : List (String × (Content → Except Cause σ))}
  {held : α → Content}

/-- Held-back fields are read by name. -/
theorem readFields_eq {fields : List (String × α)} {seen : List String}
    (hdistinct : Fields.Distinct fields) (hseen : ∀ e ∈ fields, e.1 ∉ seen) :
    readFields readers seen (fields.map fun e => (text e.1, held e.2)) =
      readNamed (fun name x => (readers.lookup name).map fun read =>
        read (held x)) fields := by
  induction fields generalizing seen with
  | nil => rfl
  | cons e rest ih =>
    obtain ⟨name, x⟩ := e
    obtain ⟨hfresh, hrest⟩ := Fields.distinct_cons.mp hdistinct
    rw [List.forall_mem_cons] at hseen
    rw [List.map_cons, readFields, readNamed]
    dsimp only [bind, Except.bind]
    cases hname : readers.lookup name with
    | none =>
      have hmem : name ∉ readers.map Prod.fst := by
        intro hmem
        obtain ⟨r, hr, rfl⟩ := List.mem_map.mp hmem
        exact absurd (List.lookup_eq_none_iff.mp hname r hr) (by simp)
      have hfield : readField (readers.map Prod.fst) (text name) = .ok none :=
        congrArg Except.ok (if_neg hmem)
      rw [hfield, ih hrest hseen.2]
      rfl
    | some read =>
      have hmem : name ∈ readers.map Prod.fst :=
        List.mem_map_of_mem (mem_of_lookup_eq_some hname)
      have hfield : readField (readers.map Prod.fst) (text name) = .ok (some name) :=
        congrArg Except.ok (if_pos hmem)
      -- The fields behind this one have other names, so they do not mind that it
      -- has been seen.
      have hseen' : ∀ e ∈ rest, e.1 ∉ name :: seen := fun e he =>
        List.not_mem_cons_of_ne_of_not_mem (hfresh e he) (hseen.2 e he)
      rw [hfield]
      dsimp only
      rw [hname]
      dsimp only
      rw [if_neg hseen.1, ih hrest hseen']
      rfl

/-- A field as it is held back. -/
def ofField (e : String × Json) : Content × Content :=
  (text e.1, ofJson e.2)

theorem ofJsonFields_eq (fields : List (String × Json)) :
    ofJsonFields fields = fields.map ofField := by
  induction fields with
  | nil => rfl
  | cons e rest ih => rw [ofJsonFields, ih, List.map_cons, ofField]

section

variable {fields : List (String × Json)} {seen : List String} {name : String}

/-- The held-back fields of a value are read by name: each known one from the value
of its name. -/
theorem readFields_named (hdistinct : Fields.Distinct fields)
    (hseen : ∀ e ∈ fields, e.1 ∉ seen)
    (hread : ∀ r ∈ readers, ∀ v, fields.lookup r.1 = some v →
      ∃ s, r.2 (ofJson v) = .ok s) :
    ∃ out, readFields readers seen (ofJsonFields fields) = .ok out ∧
      ∀ name, out.lookup name = (fields.lookup name).bind fun v =>
        (readers.lookup name).bind fun read => (read (ofJson v)).toOption := by
  let read name v := (readers.lookup name).map fun read => read (ofJson v)
  have heq : readFields readers seen (ofJsonFields fields) = readNamed read fields :=
    (congrArg _ (ofJsonFields_eq fields)).trans (readFields_eq hdistinct hseen)
  obtain ⟨out, hout⟩ : ∃ out, readNamed read fields = .ok out := by
    refine readNamed_ok_iff.mpr fun e he result hresult => ?_
    obtain ⟨read, hreader, rfl⟩ := Option.map_eq_some_iff.mp hresult
    exact hread _ (mem_of_lookup_eq_some hreader) e.2 (Fields.lookup_of_mem hdistinct he)
  refine ⟨out, heq.trans hout, fun name => ?_⟩
  rw [readNamed_lookup hdistinct hout]
  dsimp only [read]
  cases readers.lookup name <;> rfl

/-- The only known field is read from the value of its name. -/
theorem readFields_single {read : Content → Except Cause σ} {v : Json} {s : σ}
    (hdistinct : Fields.Distinct fields) (hv : fields.lookup name = some v)
    (hs : read (ofJson v) = .ok s) :
    ∃ out, readFields [(name, read)] [] (ofJsonFields fields) = .ok out ∧
      out.lookup name = some s := by
  have hread : ∀ r ∈ [(name, read)], ∀ w, fields.lookup r.1 = some w →
      ∃ s, r.2 (ofJson w) = .ok s := by
    intro r hr w hw
    obtain rfl := List.mem_singleton.mp hr
    obtain rfl := Option.some.inj (hv.symm.trans hw)
    exact ⟨s, hs⟩
  obtain ⟨out, hout, hlookup⟩ :=
    readFields_named hdistinct (fun _ _ => List.not_mem_nil) hread
  refine ⟨out, hout, ?_⟩
  rw [hlookup, hv, Fields.lookup_cons_self, Option.bind_some, Option.bind_some, hs]
  rfl

end

end Content

/-! ## Records in place -/

namespace Document

variable {α σ : Type} {read : String → Path → Document → Option (Except Failure σ)}
  {path : Path}

/-- Fields in place are read by name. -/
theorem readFields_eq {fields : List (String × α)} {seen : List String}
    {entry : String × α → Option String × Document × Document}
    (hentry : ∀ e, readName path (entry e).2.1 = .ok e.1)
    (hdistinct : Fields.Distinct fields) (hseen : ∀ e ∈ fields, e.1 ∉ seen) :
    readFields read path seen (fields.map entry) =
      readNamed (fun name x => read name (path.part (entry (name, x)).1)
        (entry (name, x)).2.2) fields := by
  induction fields generalizing seen with
  | nil => rfl
  | cons e rest ih =>
    obtain ⟨name, x⟩ := e
    obtain ⟨hfresh, hrest⟩ := Fields.distinct_cons.mp hdistinct
    rw [List.forall_mem_cons] at hseen
    have hname : readName path (entry (name, x)).2.1 = .ok name := hentry (name, x)
    rw [List.map_cons, readFields, readNamed, hname]
    dsimp only [bind, Except.bind]
    cases read name (path.part (entry (name, x)).1) (entry (name, x)).2.2 with
    | none => exact ih hrest hseen.2
    | some result =>
      have hseen' : ∀ e ∈ rest, e.1 ∉ name :: seen := fun e he =>
        List.not_mem_cons_of_ne_of_not_mem (hfresh e he) (hseen.2 e he)
      dsimp only
      rw [if_neg hseen.1, ih hrest hseen']

/-- A field as it stands in a document. -/
def renderedField (text : Json → Option String) (e : String × Json) :
    Option String × Document × Document :=
  (some e.1, ofText e.1, rendered text e.2)

theorem renderedFields_eq (text : Json → Option String) (fields : List (String × Json)) :
    renderedFields text fields = fields.map (renderedField text) := by
  induction fields with
  | nil => rfl
  | cons e rest ih => rw [renderedFields, ih, List.map_cons, renderedField]

/-- The fields of a value are read in place by name: each known one from the value
of its name. -/
theorem readFields_named (text : Json → Option String) {fields : List (String × Json)}
    {seen : List String} (hdistinct : Fields.Distinct fields)
    (hseen : ∀ e ∈ fields, e.1 ∉ seen)
    (hread : ∀ name v result, fields.lookup name = some v →
      read name (path.part (some name)) (rendered text v) = some result →
      ∃ s, result = .ok s) :
    ∃ out, readFields read path seen (renderedFields text fields) = .ok out ∧
      ∀ name, out.lookup name = (fields.lookup name).bind fun v =>
        (read name (path.part (some name)) (rendered text v)).bind Except.toOption := by
  let readValue name v := read name (path.part (some name)) (rendered text v)
  have heq : readFields read path seen (renderedFields text fields) =
      readNamed readValue fields :=
    (congrArg _ (renderedFields_eq text fields)).trans
      (readFields_eq (fun _ => rfl) hdistinct hseen)
  obtain ⟨out, hout⟩ : ∃ out, readNamed readValue fields = .ok out :=
    readNamed_ok_iff.mpr fun e he result hresult =>
      hread e.1 e.2 result (Fields.lookup_of_mem hdistinct he) hresult
  exact ⟨out, heq.trans hout, readNamed_lookup hdistinct hout⟩

end Document

/-! ## Tags

A reader of a tagged record goes through the entries once.  It reads the entry of the tag
where it finds it, and puts the others aside. -/

section

variable {α τ ε φ : Type}
  {split : Option τ → List (Content × Content) → List ε →
    Except φ (τ × List (Content × Content))}
  {entry : String × α → ε} {held : String × α → Content × Content} {tag : String}
  (hother : ∀ kind others e rest, e.1 ≠ tag →
    split kind others (entry e :: rest) = split kind (held e :: others) rest)
include hother

/-- What puts the entries of other names aside puts them all aside, in their order. -/
lemma split_append {front : List (String × α)} (h : ∀ e ∈ front, e.1 ≠ tag)
    (kind : Option τ) (others : List (Content × Content)) (rest : List ε) :
    split kind others (front.map entry ++ rest) = split kind
      ((front.map held).reverse ++ others) rest := by
  induction front generalizing others with
  | nil => rfl
  | cons e front ih =>
    rw [List.forall_mem_cons] at h
    rw [List.map_cons, List.cons_append, hother kind others e _ h.1, ih h.2,
      List.map_cons, List.reverse_cons, List.append_assoc]
    rfl

/-- Entries are split into the kind under the tag and all others, wherever the
tag stands. -/
theorem split_eq {readTag : α → Except φ τ}
    {missing : Except φ (τ × List (Content × Content))}
    (hend : ∀ kind others, split (some kind) others [] = .ok (kind, others.reverse))
    (hmissing : ∀ others, split none others [] = missing)
    (htag : ∀ others x rest,
      split none others (entry (tag, x) :: rest) = (readTag x).bind fun kind =>
        split (some kind) others rest)
    {fields : List (String × α)} (hdistinct : Fields.Distinct fields) :
    split none [] (fields.map entry) = (fields.lookup tag).elim missing fun x =>
      (readTag x).map fun kind => (kind, (fields.filter fun e => e.1 ≠ tag).map held) := by
  cases hx : fields.lookup tag with
  | none =>
    have hnone : ∀ e ∈ fields, e.1 ≠ tag := by
      rintro e he rfl
      rw [Fields.lookup_of_mem hdistinct he] at hx
      cases hx
    have hall := split_append hother hnone none [] []
    rw [List.append_nil, hmissing] at hall
    exact hall
  | some x =>
    -- The tag stands between two parts that do not hold it, and each part is passed
    -- over whole.
    obtain ⟨front, back, rfl, hothers⟩ := Fields.exists_tagged hdistinct hx
    rw [List.forall_mem_append] at hothers
    have hkept : (front ++ (tag, x) :: back).filter (fun e => e.1 ≠ tag) =
        front ++ back := by
      have hfront : front.filter (fun e => e.1 ≠ tag) = front :=
        List.filter_eq_self.mpr (by simpa using hothers.1)
      have hback : back.filter (fun e => e.1 ≠ tag) = back :=
        List.filter_eq_self.mpr (by simpa using hothers.2)
      rw [List.filter_append, hfront, List.filter_cons_of_neg (by simp), hback]
    rw [hkept, List.map_append, split_append hother hothers.1, List.append_nil,
      List.map_cons, htag, Option.elim_some]
    cases readTag x with
    | error e => rfl
    | ok kind =>
      have hlast := split_append hother hothers.2 (some kind) (front.map held).reverse []
      rw [List.append_nil, hend, List.reverse_append, List.reverse_reverse,
        List.reverse_reverse, ← List.map_append] at hlast
      exact hlast

end

end Workplan
