import Mathlib.Tactic.Lemma
import Workplan.Config.Loading
import Workplan.Proofs.Document.Named
import Workplan.Proofs.Text.Utf8
import Workplan.Proofs.Toml.Entries

/-!
# What a file configures

A file configures the program if its bytes spell a document in which each known key that
stands at the top level has an item of its type.  Then a field is what the item of its key
says, or the default where the key is missing, and other keys and tables do not matter.
Any other file gives the default configuration, whatever stands in it in front of the
fault or behind it (`GlobalConfig.load_all_or_nothing`).
-/

namespace Workplan

open Document (Path Failure)
open Toml (Item Entries)

/-! ## Typed items -/

/-- An integer is a word of 64 bits exactly if it is not negative. -/
lemma WordInt.toWord?_eq_some_iff {n : WordInt} {w : UInt64} :
    n.toWord? = some w ↔ (w.toNat : Int) = n.val := by
  have hupper := n.upper
  rw [toWord?]
  split
  · next hlower =>
    rw [Option.some.injEq, ← UInt64.toNat_inj, UInt64.toNat_ofNat']
    omega
  · next hlower =>
    constructor
    · intro h
      cases h
    · omega

namespace Toml.Item

variable {path : Path} {item : Item}

/-- A delay is read exactly from an integer that is not negative. -/
lemma readWord_eq_ok_iff {ms : UInt64} :
    Document.readWord path item.toDocument = .ok ms ↔ ∃ w, item = .int w ∧
      (ms.toNat : Int) = w.val := by
  cases item with
  | int w =>
    have hread : Document.readWord path (Item.int w).toDocument =
      Document.placed path (Document.wordOfAtom (.int w)) := rfl
    rw [hread, Document.wordOfAtom]
    constructor
    · intro h
      refine ⟨w, rfl, ?_⟩
      cases hword : w.toWord? with
      | none =>
        rw [hword] at h
        cases h
      | some ms' =>
        rw [hword] at h
        cases h
        exact WordInt.toWord?_eq_some_iff.mp hword
    · rintro ⟨w', hw', hms⟩
      cases hw'
      rw [WordInt.toWord?_eq_some_iff.mpr hms]
      rfl
  | _ => exact ⟨(fun h => nomatch h), fun ⟨_, heq, _⟩ => nomatch heq⟩

lemma readBool_eq_ok_iff {on : Bool} : Document.readBool path item.toDocument = .ok on ↔
    item = .bool on := by
  cases item with
  | bool b =>
    have hread : Document.readBool path (Item.bool b).toDocument = .ok b := rfl
    rw [hread, Except.ok.injEq, Item.bool.injEq]
  | _ => exact ⟨(fun h => nomatch h), fun heq => nomatch heq⟩

lemma readText_eq_ok_iff {directive : Option String} :
    Document.readOption (Document.readText path) path item.toDocument = .ok directive ↔
      ∃ s, item = .text s ∧ directive = some s := by
  cases item with
  | text s =>
    have hread : Document.readOption (Document.readText path) path
        (Item.text s).toDocument = .ok (some s) := rfl
    rw [hread]
    constructor
    · intro h
      cases h
      exact ⟨s, rfl, rfl⟩
    · rintro ⟨s', hs', rfl⟩
      cases hs'
      rfl
  | _ => exact ⟨(fun h => nomatch h), fun ⟨_, heq, _⟩ => nomatch heq⟩

end Toml.Item

namespace GlobalConfig

/-- The keys of a file that stand for fields. -/
def keys : List String :=
  ["loop_delay_ms", "otel", "log_filter"]

/-- What an item says of the field with its key, if it has the right type: a number that
is not negative and fits a signed word, a truth value, or a text. -/
inductive Says : String → Item → Field → Prop
  | delay {w : WordInt} {ms : UInt64} : 0 ≤ w.val → w.val < 0x8000000000000000 →
      (ms.toNat : Int) = w.val →
      Says "loop_delay_ms" (.int w) (.delay ms)
  | otel (on : Bool) : Says "otel" (.bool on) (.otel on)
  | filter (directive : String) : Says "log_filter" (.text directive)
      (.filter (some directive))

/-- The field of a key. -/
def field? (c : GlobalConfig) : String → Option Field
  | "loop_delay_ms" => some (.delay c.loopDelayMs)
  | "otel" => some (.otel c.otel)
  | "log_filter" => some (.filter c.logFilter)
  | _ => none

/-- Every known key that occurs has an item of its type. -/
def WellTyped (es : Entries) : Prop :=
  ∀ key ∈ keys, ∀ item, es.get? key = some item → ∃ f, Says key item f

/-- Every field is what the item of its key says, or the default if its key does not
occur. -/
def IsSetBy (c : GlobalConfig) (es : Entries) : Prop :=
  ∀ key ∈ keys, match es.get? key with
    | some item => ∃ f, c.field? key = some f ∧ Says key item f
    | none => c.field? key = ({} : GlobalConfig).field? key

variable {key : String} {path : Path} {item : Item} {f : Field} {es : Entries}
  {c c' : GlobalConfig}

/-! ## Reading fields -/

/-- Only the known keys are read. -/
lemma readField_isSome_iff {d : Document} : (readField key path d).isSome ↔ key ∈ keys := by
  unfold readField
  split <;> simp_all [keys]

/-- A field is read from an item of its type. -/
lemma Says.readField_eq (h : Says key item f) :
    readField key path item.toDocument = some (.ok f) := by
  cases h with
  | delay _ _ hms =>
    show some ((Document.readWord path _).map Field.delay) = _
    rw [Item.readWord_eq_ok_iff.mpr ⟨_, rfl, hms⟩]
    rfl
  | otel => rfl
  | filter => rfl

/-- No field is read from an item of another type. -/
lemma readField_eq_ok_iff (hword : ∀ w, item = .int w → w.val < 0x8000000000000000) :
    readField key path item.toDocument = some (.ok f) ↔ Says key item f := by
  refine ⟨fun h => ?_, Says.readField_eq⟩
  unfold readField at h
  split at h
  · obtain ⟨ms, hms, rfl⟩ := exists_of_map_eq_ok (Option.some.inj h)
    obtain ⟨w, rfl, hw⟩ := Item.readWord_eq_ok_iff.mp hms
    exact .delay (by omega) (hword w rfl) hw
  · obtain ⟨on, hon, rfl⟩ := exists_of_map_eq_ok (Option.some.inj h)
    rw [Item.readBool_eq_ok_iff.mp hon]
    exact .otel on
  · obtain ⟨directive, hdirective, rfl⟩ := exists_of_map_eq_ok (Option.some.inj h)
    obtain ⟨s, rfl, rfl⟩ := Item.readText_eq_ok_iff.mp hdirective
    exact .filter s
  · cases h

/-! ## Reading tables -/

/-- An entry as it stands in the document of its table. -/
def inDocument (e : String × Item) : Option String × Document × Document :=
  (some e.1, .ofText e.1, e.2.toDocument)

lemma entriesToDocument_eq (es : Entries) :
    Toml.entriesToDocument es = es.map inDocument := by
  induction es with
  | nil => rfl
  | cons e es ih => rw [Toml.entriesToDocument, ih, List.map_cons, inDocument]

/-- The fields of a table are read by their keys. -/
lemma readFields_eq (hes : es.Regular) :
    Document.readFields readField [] [] (Toml.entriesToDocument es) =
      readNamed
        (fun key item => readField key (Path.part [] (some key)) item.toDocument) es := by
  rw [entriesToDocument_eq]
  exact Document.readFields_eq (fun _ => rfl) hes.keys fun _ _ => List.not_mem_nil

/-- The fields of a table can be read if each known key has an item of its type. -/
lemma exists_readFields_iff (hes : es.Regular) :
    (∃ out, Document.readFields readField [] [] (Toml.entriesToDocument es) = .ok out) ↔
      WellTyped es := by
  rw [readFields_eq hes, readNamed_ok_iff]
  constructor
  · intro h key hkey item hitem
    have hmem := Entries.mem_of_get? hitem
    obtain ⟨result, hresult⟩ := Option.isSome_iff_exists.mp (readField_isSome_iff.mpr hkey)
    obtain ⟨f, rfl⟩ := h (key, item) hmem result hresult
    exact ⟨f, (readField_eq_ok_iff (hes.words _ hmem)).mp hresult⟩
  · intro h e he result hresult
    have hkey : e.1 ∈ keys :=
      readField_isSome_iff.mp (Option.isSome_iff_exists.mpr ⟨result, hresult⟩)
    obtain ⟨f, hsays⟩ := h e.1 hkey e.2 (Fields.lookup_of_mem hes.keys he)
    rw [(readField_eq_ok_iff (hes.words e he)).mpr hsays] at hresult
    exact ⟨f, (Option.some.inj hresult).symm⟩

/-- A field that has been read is what the item of its key says. -/
lemma lookup_readFields (hes : es.Regular) {out : List (String × Field)}
    (h : Document.readFields readField [] [] (Toml.entriesToDocument es) = .ok out) :
    out.lookup key = some f ↔ ∃ item, es.get? key = some item ∧ Says key item f := by
  -- Only the item of the key counts, since no key stands twice.
  rw [readFields_eq hes] at h
  rw [readNamed_lookup hes.keys h, Option.bind_eq_some_iff]
  refine exists_congr fun item => and_congr_right fun hitem => ?_
  rw [← @readField_eq_ok_iff key (Path.part [] (some key)) item f
    (hes.words _ (Entries.mem_of_get? hitem)), Option.bind_eq_some_iff]
  constructor
  · rintro ⟨result, hresult, hf⟩
    cases result with
    | error e => cases hf
    | ok f' =>
      cases hf
      exact hresult
  · intro hf
    exact ⟨.ok f, hf, rfl⟩

lemma field?_ofFields {out : List (String × Field)} (hkey : key ∈ keys)
    (hout : ∀ f, out.lookup key = some f → ∃ item, Says key item f) :
    (ofFields out).field? key = (out.lookup key).or (({} : GlobalConfig).field? key) := by
  simp only [keys, List.mem_cons, List.not_mem_nil, or_false] at hkey
  cases hlookup : out.lookup key with
  | none => rcases hkey with rfl | rfl | rfl <;> simp [field?, ofFields, hlookup]
  | some f =>
    obtain ⟨item, hsays⟩ := hout f hlookup
    cases hsays <;> simp [field?, ofFields, hlookup]

lemma ofDocument_table (entries : List (Option String × Document × Document)) :
    ofDocument (.table entries) =
      (Document.readFields readField [] [] entries).map ofFields := by
  have hbind : ofDocument (.table entries) =
    (Document.readFields readField [] [] entries).bind fun fields =>
      .ok (ofFields fields) := rfl
  rw [hbind]
  cases Document.readFields readField [] [] entries <;> rfl

/-! ## Configurations -/

/-- A configuration is determined by its fields. -/
lemma eq_of_field? (h : ∀ key ∈ keys, c.field? key = c'.field? key) : c = c' := by
  have hdelay := h "loop_delay_ms" (by simp [keys])
  have hotel := h "otel" (by simp [keys])
  have hfilter := h "log_filter" (by simp [keys])
  cases c
  cases c'
  simp_all [field?]

/-- An item says one thing about a field. -/
lemma Says.unique {f' : Field} (h : Says key item f) (h' : Says key item f') : f = f' := by
  have hread : readField key [] item.toDocument = some (.ok f) := h.readField_eq
  rw [h'.readField_eq] at hread
  exact (Except.ok.inj (Option.some.inj hread)).symm

/-- A table sets a single configuration. -/
lemma IsSetBy.unique (h : c.IsSetBy es) (h' : c'.IsSetBy es) : c = c' := by
  refine eq_of_field? fun key hkey => ?_
  have hc := h key hkey
  have hc' := h' key hkey
  cases hitem : es.get? key with
  | none =>
    rw [hitem] at hc hc'
    exact hc.trans hc'.symm
  | some item =>
    rw [hitem] at hc hc'
    obtain ⟨f, hf, hsays⟩ := hc
    obtain ⟨f', hf', hsays'⟩ := hc'
    rw [hf, hf', hsays.unique hsays']

/-- The fields that have been read from a table make the configuration that the
table sets. -/
lemma isSetBy_ofFields (hes : es.Regular) (htyped : WellTyped es)
    {out : List (String × Field)}
    (h : Document.readFields readField [] [] (Toml.entriesToDocument es) = .ok out) :
    (ofFields out).IsSetBy es := by
  intro key hkey
  have hfield : (ofFields out).field? key = (out.lookup key).or
      (({} : GlobalConfig).field? key) :=
    field?_ofFields hkey fun f hf => ((lookup_readFields hes h).mp hf).imp fun _ =>
      And.right
  cases hitem : es.get? key with
  | none =>
    have hnone : out.lookup key = none := by
      refine Option.eq_none_iff_forall_ne_some.mpr fun f hf => ?_
      obtain ⟨item, hsome, -⟩ := (lookup_readFields hes h).mp hf
      rw [hitem] at hsome
      cases hsome
    rw [hfield, hnone]
    rfl
  | some item =>
    obtain ⟨f, hsays⟩ := htyped key hkey item hitem
    refine ⟨f, ?_, hsays⟩
    rw [hfield, (lookup_readFields hes h).mpr ⟨item, hitem, hsays⟩]
    rfl

/-- A configuration is set only by entries of the right kinds. -/
lemma IsSetBy.wellTyped (h : c.IsSetBy es) : WellTyped es := by
  intro key hkey item hitem
  have hc := h key hkey
  rw [hitem] at hc
  exact hc.imp fun _ => And.right

/-- A configuration is read from entries exactly if they set it. -/
lemma ofDocument_eq_ok_iff (hes : es.Regular) :
    ofDocument (.table (Toml.entriesToDocument es)) = .ok c ↔ c.IsSetBy es := by
  rw [ofDocument_table]
  constructor
  · intro h
    obtain ⟨out, hout, rfl⟩ := exists_of_map_eq_ok h
    exact isSetBy_ofFields hes ((exists_readFields_iff hes).mp ⟨out, hout⟩) hout
  · intro h
    obtain ⟨out, hout⟩ := (exists_readFields_iff hes).mpr h.wellTyped
    rw [hout, h.unique (isSetBy_ofFields hes h.wellTyped hout)]
    rfl

/-- A text gives the configuration that it sets as a document. -/
lemma ofToml?_eq_some_iff {text : String} :
    ofToml? text = some c ↔ ∃ es, Toml.IsDocument text es ∧ c.IsSetBy es := by
  have htoOption : ∀ es, (ofDocument (.table (Toml.entriesToDocument es))).toOption =
      some c ↔
      ofDocument (.table (Toml.entriesToDocument es)) = .ok c := by
    intro es
    cases ofDocument (.table (Toml.entriesToDocument es)) <;> simp [Except.toOption]
  have hbind : ofToml? text =
    (Toml.parse? text).bind fun es =>
      (ofDocument (.table (Toml.entriesToDocument es))).toOption := rfl
  rw [hbind, Option.bind_eq_some_iff]
  refine exists_congr fun es => ?_
  rw [Toml.parse?_eq_some_iff]
  refine and_congr_right fun hdocument => ?_
  rw [htoOption, ofDocument_eq_ok_iff hdocument.regular]

/-! ## Files -/

lemma text_eq_ok_iff {content : FileContent} {text : String} :
    content.text = .ok text ↔ content = .bytes (Text.Utf8.encode text) := by
  cases content with
  | bytes bytes =>
    rw [FileContent.text, FileContent.bytes.injEq, ← Text.Utf8.decode?_eq_some_iff]
    cases Text.Utf8.decode? bytes <;> simp
  | _ => exact ⟨(fun h => nomatch h), fun h => nomatch h⟩

/-- A file either gives a configuration as a whole or the default one.  If its bytes spell
a document in which each known key that occurs has its type, the configuration is the one
that the document sets: with the value of every known key that occurs and the default for
every other, whatever other keys and tables there are.  Any other file, and one that is
missing or cannot be read, gives the default configuration. -/
theorem load_all_or_nothing (content : FileContent) :
    (∀ text es, content = .bytes (Text.Utf8.encode text) → Toml.IsDocument text es →
      WellTyped es →
      ∀ c, load content = c ↔ c.IsSetBy es) ∧
    ((∀ text es, content = .bytes (Text.Utf8.encode text) → Toml.IsDocument text es →
      ¬ WellTyped es) →
      load content = {}) := by
  constructor
  · intro text es hcontent hdocument htyped c
    -- The readers of bytes, of documents and of fields are exact, so nothing else can
    -- have been read.
    have hes := hdocument.regular
    obtain ⟨out, hout⟩ := (exists_readFields_iff hes).mpr htyped
    have hset : (ofFields out).IsSetBy es := isSetBy_ofFields hes htyped hout
    have hload : load content = ofFields out := by
      rw [load, text_eq_ok_iff.mpr hcontent]
      show (ofToml? text).getD {} = _
      rw [ofToml?_eq_some_iff.mpr ⟨es, hdocument, hset⟩]
      rfl
    rw [hload]
    constructor
    · rintro rfl
      exact hset
    · exact hset.unique
  · intro hnone
    unfold load
    cases htext : content.text with
    | error e => rfl
    | ok text =>
      have hread : ofToml? text = none := by
        refine Option.eq_none_iff_forall_ne_some.mpr fun c hc => ?_
        obtain ⟨es, hdocument, hset⟩ := ofToml?_eq_some_iff.mp hc
        exact hnone text es (text_eq_ok_iff.mp htext) hdocument hset.wellTyped
      show (ofToml? text).getD {} = _
      rw [hread]
      rfl

/-- A key of a table is not one at the top level, and a wrong number behind a right truth
value takes both away. -/
theorem load_all_or_nothing_otel :
    load (.bytes (Text.Utf8.encode "otel = true\n[x]\notel = 1\n")) = ⟨1000, true, none⟩ ∧
    load (.bytes (Text.Utf8.encode "otel = true\nloop_delay_ms = -1\n")) = ⟨1000,
      false, none⟩ := by
  have hone : "otel = true\n[x]\notel = 1\n".toList = ['o', 't', 'e', 'l', ' ', '=', ' ',
      't', 'r', 'u', 'e', '\n',
    '[', 'x', ']', '\n', 'o', 't', 'e', 'l', ' ', '=', ' ', '1', '\n'] := rfl
  have hminus : "otel = true\nloop_delay_ms = -1\n".toList = ['o', 't', 'e', 'l', ' ',
      '=', ' ', 't', 'r', 'u', 'e',
    '\n', 'l', 'o', 'o', 'p', '_', 'd', 'e', 'l', 'a', 'y', '_', 'm', 's', ' ', '=', ' ',
    '-', '1', '\n'] := rfl
  have hparse : Toml.parse? "otel = true\n[x]\notel = 1\n" =
      some [("otel", .bool true),
        ("x", .table .header [("otel", .int ⟨1, by decide, by decide⟩)])] := by
    rw [Toml.parse?, hone]
    rfl
  have hparse' : Toml.parse? "otel = true\nloop_delay_ms = -1\n" =
      some [("otel", .bool true), ("loop_delay_ms", .int ⟨-1, by decide, by decide⟩)] := by
    rw [Toml.parse?, hminus]
    rfl
  constructor
  · have hset : IsSetBy ⟨1000, true, none⟩
        [("otel", .bool true),
          ("x", .table .header [("otel", .int ⟨1, by decide, by decide⟩)])] := by
      intro key hkey
      simp only [keys, List.mem_cons, List.not_mem_nil, or_false] at hkey
      rcases hkey with rfl | rfl | rfl
      · rfl
      · exact ⟨.otel true, rfl, .otel true⟩
      · rfl
    exact ((load_all_or_nothing _).1 _ _ rfl (Toml.parse?_eq_some_iff.mp hparse)
      hset.wellTyped _).mpr hset
  · refine (load_all_or_nothing _).2 fun text es hcontent hdocument htyped => ?_
    obtain rfl := Text.Utf8.encode_inj (FileContent.bytes.inj hcontent)
    rw [← Toml.parse?_eq_some_iff, hparse'] at hdocument
    obtain rfl := Option.some.inj hdocument
    obtain ⟨f, hsays⟩ := htyped "loop_delay_ms" (by simp [keys]) _ rfl
    have hread : readField "loop_delay_ms" []
        (Item.int ⟨-1, by decide, by decide⟩).toDocument = some (.ok f) :=
      hsays.readField_eq
    cases hread

end GlobalConfig

end Workplan
