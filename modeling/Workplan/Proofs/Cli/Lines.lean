import Mathlib.Data.List.Induction
import Mathlib.Tactic.Lemma
import Workplan.Proofs.Cli.Words

/-!
# Command lines

A command line is accepted exactly if it falls into the words of two sides with the name
of a subcommand between them, and the settings on each side fit together (`exists_line`,
`Line.Spelled.parse`).
-/

namespace Workplan.Cli

/-! ## Settings that fit together -/

/-- Whether a setting can be taken at a place at all. -/
def Setting.Valid (place : Place) : Setting → Prop
  | .flag .help => False
  | .flag .version => False
  | .flag _ => True
  | .value .config text => text.isEmpty = false
  | .value .delay text => (word? text).isSome = true
  | .value .operand text =>
    if place = .after .completions then (CompletionShell.named? text).isSome = true
    else text.isEmpty = false

/-- Whether two settings cannot be taken together. -/
def Setting.Clashes : Setting → Setting → Prop
  | .flag f, .flag f' => f = f' ∧ f ≠ .verbose
  | .value slot _, .value slot' _ => slot = slot'
  | _, _ => False

/-- Settings that can be taken at a place. -/
structure Fits (place : Place) (ss : List Setting) : Prop where
  valid : ∀ s ∈ ss, s.Valid place
  apart : ss.Pairwise fun s t => ¬ s.Clashes t

/-- The value that a setting gives to a slot. -/
def Setting.text? (slot : Slot) : Setting → Option String
  | .value slot' text => if slot' = slot then some text else none
  | .flag _ => none

/-- What settings give. -/
def Given.ofSettings (ss : List Setting) : Given where
  json := decide (.flag .json ∈ ss)
  quiet := decide (.flag .quiet ∈ ss)
  verbose := min (ss.count (.flag .verbose)) verbosityLimit
  otel := decide (.flag .otel ∈ ss)
  showPlan := decide (.flag .showPlan ∈ ss)
  printYaml := decide (.flag .printYaml ∈ ss)
  config := ss.findSome? (Setting.text? .config)
  delay := (ss.findSome? (Setting.text? .delay)).bind word?
  operand := ss.findSome? (Setting.text? .operand)

section
variable {place : Place} {ss ts : List Setting} {s t : Setting} {g : Given} {slot : Slot}
  {text : String} {f : Flag}

lemma Setting.Clashes.symm (h : s.Clashes t) : t.Clashes s := by
  cases s <;> cases t
  · exact ⟨h.1.symm, h.1 ▸ h.2⟩
  · cases h
  · cases h
  · exact Eq.symm h

/-- A further setting fits if it is valid and clashes with none of those before. -/
lemma fits_concat_iff : Fits place (ss ++ [s]) ↔ Fits place ss ∧ s.Valid place ∧
    ∀ t ∈ ss, ¬ t.Clashes s := by
  constructor
  · rintro ⟨hvalid, hapart⟩
    rw [List.pairwise_append] at hapart
    exact ⟨⟨fun t ht => hvalid t (List.mem_append_left _ ht), hapart.1⟩,
      hvalid s (List.mem_append_right _ (List.mem_singleton_self s)),
      fun t ht => hapart.2.2 t ht s (List.mem_singleton_self s)⟩
  · rintro ⟨⟨hvalid, hapart⟩, hs, hclash⟩
    refine ⟨fun t ht => ?_, List.pairwise_append.mpr ⟨hapart, List.pairwise_singleton _ s,
      fun t ht u hu => ?_⟩⟩
    · rcases List.mem_append.mp ht with ht | ht
      · exact hvalid t ht
      · exact List.mem_singleton.mp ht ▸ hs
    · exact List.mem_singleton.mp hu ▸ hclash t ht

theorem Setting.text?_eq_some_iff : s.text? slot = some text ↔ s = .value slot text := by
  cases s with
  | flag f => exact ⟨nofun, nofun⟩
  | value slot' text' =>
    rw [Setting.text?]
    split
    · next heq =>
        rw [heq, Option.some.injEq, Setting.value.injEq]
        exact ⟨fun h => ⟨rfl, h⟩, And.right⟩
    · next hne => exact ⟨nofun, fun h => absurd (Setting.value.inj h).1 hne⟩

/-- An option has no value exactly if a value for it would clash with nothing. -/
theorem findSome?_text?_eq_none_iff :
    ss.findSome? (Setting.text? slot) = none ↔
      ∀ t ∈ ss, ¬ t.Clashes (.value slot text) := by
  rw [List.findSome?_eq_none_iff]
  refine forall₂_congr fun t _ => ?_
  cases t with
  | flag f => exact ⟨fun _ => not_false, fun _ => rfl⟩
  | value slot' text' => rw [Setting.text?]; simp [Setting.Clashes]

lemma flag_notMem_iff (hf : f ≠ .verbose) :
    .flag f ∉ ss ↔ ∀ t ∈ ss, ¬ t.Clashes (.flag f) := by
  constructor
  · rintro h (f' | ⟨slot, text⟩) ht hclash
    · exact h (hclash.1 ▸ ht)
    · exact hclash
  · exact fun h hmem => h _ hmem ⟨rfl, hf⟩

lemma once_eq_ok_iff {old : Bool} {g g' : Given} :
    Given.once old g = .ok g' ↔ old = false ∧ g' = g := by
  cases old with
  | false => exact ⟨fun h => ⟨rfl, (Except.ok.inj h).symm⟩, fun h => h.2 ▸ rfl⟩
  | true => exact ⟨nofun, nofun⟩

lemma delay_isSome_iff (hfits : Fits place ss) :
    (Given.ofSettings ss).delay.isSome = (ss.findSome? (Setting.text? .delay)).isSome := by
  rw [Given.ofSettings]
  cases htext : ss.findSome? (Setting.text? .delay) with
  | none => rfl
  | some text =>
    -- The text is a number since the setting is valid, so the delay is not lost.
    obtain ⟨t, ht, hvalue⟩ := List.exists_of_findSome?_eq_some htext
    obtain rfl := Setting.text?_eq_some_iff.mp hvalue
    exact hfits.valid _ ht

lemma findSome?_text?_isSome_eq_false_iff (text : String) :
    (ss.findSome? (Setting.text? slot)).isSome = false ↔
      ∀ t ∈ ss, ¬ t.Clashes (.value slot text) := by
  rw [Option.isSome_eq_false_iff, Option.isNone_iff_eq_none]
  exact findSome?_text?_eq_none_iff

/-- To take an option is to add it to the settings, unless it is there. -/
lemma add_flag_ofSettings (hverbose : f ≠ .verbose)
    (hvalid : (Setting.flag f).Valid place) :
    (Given.ofSettings ss).add place (.flag f) =
      Given.once (decide (.flag f ∈ ss)) (Given.ofSettings (ss ++ [.flag f])) := by
  cases f with
  | verbose => exact absurd rfl hverbose
  | help => exact hvalid.elim
  | version => exact hvalid.elim
  | _ =>
    simp [Given.add, Given.addFlag, Given.ofSettings, Setting.text?,
      List.findSome?_append]

/-- A letter for verbosity may be taken any number of times. -/
lemma add_verbose_ofSettings :
    (Given.ofSettings ss).add place (.flag .verbose) =
      .ok (Given.ofSettings (ss ++ [.flag .verbose])) := by
  have hcount : min (min (ss.count (.flag .verbose)) verbosityLimit + 1) verbosityLimit =
      min (ss.count (.flag .verbose) + 1) verbosityLimit := by omega
  simp [Given.add, Given.addFlag, Given.ofSettings, Setting.text?,
    List.findSome?_append, hcount]

/-- A setting that clashes with none can be taken if it is a good one. -/
lemma add_value_ofSettings (hfits : Fits place ss)
    (hclash : ∀ t ∈ ss, ¬ t.Clashes (.value slot text)) :
    (Given.ofSettings ss).add place (.value slot text) = .ok g ↔
      (Setting.value slot text).Valid place ∧
        g = Given.ofSettings (ss ++ [.value slot text]) := by
  have hfree := (findSome?_text?_isSome_eq_false_iff text).mpr hclash
  have hnone := Option.isNone_iff_eq_none.mp (Option.isSome_eq_false_iff.mp hfree)
  -- Each slot has a test of its own for what may fill it.
  cases slot with
  | config =>
    have hconfig : (Given.ofSettings ss).config.isSome = false := hfree
    have hgiven : Given.ofSettings (ss ++ [.value .config text]) =
        { Given.ofSettings ss with config := some text } := by
      simp [Given.ofSettings, Setting.text?, List.findSome?_append, hnone]
    simp only [Given.add, Given.addValue, hconfig, hgiven, Setting.Valid]
    cases text.isEmpty <;> simp [eq_comm]
  | delay =>
    have hdelay : (Given.ofSettings ss).delay.isSome = false :=
      (delay_isSome_iff hfits).trans hfree
    have hgiven : Given.ofSettings (ss ++ [.value .delay text]) =
        { Given.ofSettings ss with delay := word? text } := by
      simp [Given.ofSettings, Setting.text?, List.findSome?_append, hnone]
    simp only [Given.add, Given.addValue, hdelay, hgiven, Setting.Valid]
    cases word? text <;> simp [eq_comm]
  | operand =>
    have hoperand : (Given.ofSettings ss).operand.isSome = false := hfree
    have hgiven : Given.ofSettings (ss ++ [.value .operand text]) =
        { Given.ofSettings ss with operand := some text } := by
      simp [Given.ofSettings, Setting.text?, List.findSome?_append, hnone]
    simp only [Given.add, Given.addValue, hoperand, hgiven, Setting.Valid]
    by_cases hplace : place = .after .completions
    · simp only [if_pos hplace]
      cases (CompletionShell.named? text).isSome <;> simp [eq_comm]
    · simp only [if_neg hplace]
      cases text.isEmpty <;> simp [eq_comm]

/-- A setting cannot be taken beside one that it clashes with. -/
lemma add_value_ne_ok (hfits : Fits place ss) (ht : t ∈ ss)
    (hclash : t.Clashes (.value slot text)) :
    (Given.ofSettings ss).add place (.value slot text) ≠ .ok g := by
  have hsome : (ss.findSome? (Setting.text? slot)).isSome = true := by
    rw [← Bool.not_eq_false]
    exact fun h => (findSome?_text?_isSome_eq_false_iff text).mp h t ht hclash
  cases slot with
  | config =>
    have hconfig : (Given.ofSettings ss).config.isSome = true := hsome
    simp [Given.add, Given.addValue, hconfig]
  | delay =>
    have hdelay : (Given.ofSettings ss).delay.isSome = true :=
      (delay_isSome_iff hfits).trans hsome
    simp [Given.add, Given.addValue, hdelay]
  | operand =>
    have hoperand : (Given.ofSettings ss).operand.isSome = true := hsome
    simp [Given.add, hoperand]

/-- One more setting can be taken if it is a good one and clashes with none. -/
lemma add_ofSettings_iff (hfits : Fits place ss) :
    (Given.ofSettings ss).add place s = .ok g ↔
      s.Valid place ∧ (∀ t ∈ ss, ¬ t.Clashes s) ∧ g = Given.ofSettings (ss ++ [s]) := by
  cases s with
  | flag f =>
    by_cases hverbose : f = .verbose
    · subst hverbose
      have hclash : ∀ t ∈ ss, ¬ t.Clashes (.flag .verbose) := by
        rintro (f | ⟨slot, text⟩) - hclash
        · exact hclash.2 hclash.1
        · exact hclash
      rw [add_verbose_ofSettings, Except.ok.injEq, eq_comm]
      exact ⟨fun h => ⟨trivial, hclash, h⟩, fun h => h.2.2⟩
    · by_cases hvalid : (Setting.flag f).Valid place
      · rw [add_flag_ofSettings hverbose hvalid, once_eq_ok_iff, decide_eq_false_iff_not,
          flag_notMem_iff hverbose]
        exact (and_iff_right hvalid).symm
      -- Only the requests for help and for the version are no settings to be taken.
      · refine iff_of_false ?_ fun h => hvalid h.1
        cases f with
        | help => exact nofun
        | version => exact nofun
        | _ => exact absurd trivial hvalid
  | value slot text =>
    by_cases hclash : ∀ t ∈ ss, ¬ t.Clashes (.value slot text)
    · rw [add_value_ofSettings hfits hclash]
      exact and_congr_right fun _ => (and_iff_right hclash).symm
    · refine iff_of_false ?_ fun h => hclash h.2.1
      simp only [not_forall, not_not] at hclash
      obtain ⟨t, ht, hclash⟩ := hclash
      exact add_value_ne_ok hfits ht hclash

/-- Settings can be taken one after the other exactly if they fit together. -/
lemma addAll_eq_ok_iff : ({} : Given).addAll place ss = .ok g ↔ Fits place ss ∧
    g = Given.ofSettings ss := by
  induction ss using List.reverseRecOn generalizing g with
  | nil => exact ⟨fun h => by cases h; exact ⟨⟨nofun, .nil⟩, rfl⟩, fun h => h.2 ▸ rfl⟩
  | append_singleton ss s ih =>
    rw [Given.addAll_append, fits_concat_iff]
    constructor
    · intro h
      obtain ⟨g₀, hg₀, h⟩ := exists_of_bind_eq_ok h
      obtain ⟨hfits, rfl⟩ := ih.mp hg₀
      rw [Given.addAll_singleton, add_ofSettings_iff hfits] at h
      exact ⟨⟨hfits, h.1, h.2.1⟩, h.2.2⟩
    · rintro ⟨⟨hfits, hvalid, hclash⟩, rfl⟩
      rw [ih.mpr ⟨hfits, rfl⟩]
      show (Given.ofSettings ss).addAll place [s] = _
      rw [Given.addAll_singleton, add_ofSettings_iff hfits]
      exact ⟨hvalid, hclash, rfl⟩

/-! ## The order of settings -/

lemma findSome?_text?_eq_some_iff (hapart : ss.Pairwise fun s t => ¬ s.Clashes t) :
    ss.findSome? (Setting.text? slot) = some text ↔ .value slot text ∈ ss := by
  constructor
  · intro h
    obtain ⟨t, ht, hvalue⟩ := List.exists_of_findSome?_eq_some h
    exact Setting.text?_eq_some_iff.mp hvalue ▸ ht
  · intro hmem
    induction ss with
    | nil => cases hmem
    | cons s ss ih =>
      rw [List.pairwise_cons] at hapart
      rcases List.mem_cons.mp hmem with rfl | hmem
      · rw [List.findSome?_cons, Setting.text?_eq_some_iff.mpr rfl]
      · have hs : s.text? slot = none := by
          rw [Option.eq_none_iff_forall_ne_some]
          intro text' hs
          exact hapart.1 _ hmem (Setting.text?_eq_some_iff.mp hs ▸ rfl)
        rw [List.findSome?_cons, hs]
        exact ih hapart.2 hmem

/-- Whether settings clash does not depend on their order. -/
theorem apart_of_perm (hperm : ss.Perm ts) (h : ss.Pairwise fun s t => ¬ s.Clashes t) :
    ts.Pairwise fun s t => ¬ s.Clashes t :=
  (hperm.pairwise_iff fun hst hts => hst hts.symm).mp h

/-- Settings that do not clash give the same in any order. -/
theorem ofSettings_eq_of_perm (hapart : ss.Pairwise fun s t => ¬ s.Clashes t)
    (hperm : ss.Perm ts) :
    Given.ofSettings ss = Given.ofSettings ts := by
  have hapart' := apart_of_perm hperm hapart
  have htexts (slot : Slot) : ss.findSome? (Setting.text? slot) = ts.findSome?
      (Setting.text? slot) := by
    ext text
    rw [findSome?_text?_eq_some_iff hapart, findSome?_text?_eq_some_iff hapart',
      hperm.mem_iff]
  simp only [Given.ofSettings, hperm.mem_iff, hperm.count_eq, htexts]

/-- Neither does it whether they fit. -/
theorem Fits.perm (h : Fits place ss) (hperm : ss.Perm ts) : Fits place ts :=
  ⟨fun s hs => h.valid s (hperm.mem_iff.mpr hs), apart_of_perm hperm h.apart⟩

end

/-! ## Lines -/

/-- The settings in front of the name of a subcommand and those behind it. -/
structure Line where
  front : List Setting
  kind : SubcommandKind
  back : List Setting

namespace Line

/-- The arguments that spell a line. -/
def Spelled (l : Line) (args : List String) : Prop :=
  ∃ front name back, args = front ++ name :: back ∧
    SubcommandKind.named? name = some l.kind ∧
    Words .before front l.front ∧ Words (.after l.kind) back l.back

/-- What a line asks for.  If the variable of the environment is empty, a configuration
file has to be named on both sides. -/
structure Means (variable_ : Option String) (l : Line) (i : Invocation) : Prop where
  front : Fits .before l.front
  back : Fits (.after l.kind) l.back
  empty : variable_ = some "" →
    (Given.ofSettings l.front).config.isSome = true ∧
      (Given.ofSettings l.back).config.isSome = true
  subcommand : l.kind.withGiven (Given.ofSettings l.back) = .ok i.subcommand
  json : i.json = ((Given.ofSettings l.front).json || (Given.ofSettings l.back).json)
  quiet : i.quiet = ((Given.ofSettings l.front).quiet || (Given.ofSettings l.back).quiet)
  otel : i.otel = ((Given.ofSettings l.front).otel || (Given.ofSettings l.back).otel)
  config : i.config =
    ((Given.ofSettings l.back).config <|> (Given.ofSettings l.front).config <|> variable_)
  verbose : i.verbose = if (Given.ofSettings l.back).verbose = 0 then
    (Given.ofSettings l.front).verbose
    else (Given.ofSettings l.back).verbose

end Line

section
variable {place : Place} {variable_ : Option String} {args front back : List String}
  {name : String} {r r' : Reading} {g : Given} {i : Invocation}

open Reading

/-- At the end all is taken, and an empty name in the environment is refused unless a file
is named here. -/
lemma finish_eq_ok_iff : r.finish place variable_ = .ok g ↔
    r.total place = .ok g ∧ (variable_ = some "" → g.config.isSome = true) := by
  rw [finish, total]
  cases r.settle place with
  | error e =>
    constructor
    · intro h
      cases h
    · rintro ⟨h, -⟩
      cases h
  | ok s =>
    simp only [bind, Except.bind, Except.map, pure, Except.pure]
    cases hconfig : s.given.config with
    | some path =>
      rw [Option.isNone_some, Bool.false_and, if_neg Bool.false_ne_true]
      exact ⟨fun h => ⟨h, fun _ => by cases h; rw [hconfig]; rfl⟩, And.left⟩
    | none =>
      -- Without a file on this side, an empty variable is refused.
      by_cases hempty : variable_ = some ""
      · subst hempty
        constructor
        · intro h
          cases h
        · rintro ⟨h, hsome⟩
          cases h
          rw [hconfig] at hsome
          cases hsome rfl
      · rw [Option.isNone_none, Bool.true_and, if_neg (by rwa [beq_iff_eq])]
        exact ⟨fun h => ⟨h, fun h' => absurd h' hempty⟩, And.left⟩

theorem isPlain_of_named? {kind : SubcommandKind}
    (h : SubcommandKind.named? name = some kind) :
    isPlain name = true := by
  unfold SubcommandKind.named? at h
  split at h
  case h_5 => cases h
  all_goals decide

/-- The name of a subcommand cannot be read in front of it. -/
lemma namesSubcommand_eq_false (h : r.readOne .before name = .ok r') :
    r.namesSubcommand name = false := by
  rw [← Bool.not_eq_true]
  intro hnames
  rw [namesSubcommand, Bool.and_eq_true, Bool.and_eq_true, Bool.not_eq_true',
    Bool.not_eq_true', Bool.or_eq_true, beq_iff_eq, Option.isSome_iff_exists] at hnames
  obtain ⟨⟨hplainOnly, hawaiting⟩, hname⟩ := hnames
  have hplain : isPlain name = true := by
    obtain ⟨kind, hkind⟩ | rfl := hname
    · exact isPlain_of_named? hkind
    · decide
  rw [readOne_plain hplainOnly hplain] at h
  split at h
  · next hpending =>
    rw [isAwaiting, hpending] at hawaiting
    cases hawaiting
  · rw [readPlain] at h
    split at h <;> cases h

/-- Reading stops at the name of a subcommand, and everything before is read as one side. -/
lemma readBefore_eq_ok (h : r.readBefore args = .ok (r', some (name, back))) :
    ∃ front, args = front ++ name :: back ∧ r.readAll .before front = .ok r' := by
  induction args generalizing r with
  | nil => cases h
  | cons arg rest ih =>
    rw [readBefore] at h
    split at h
    · cases h
      exact ⟨[], rfl, rfl⟩
    · obtain ⟨r₁, hr₁, h⟩ := exists_of_bind_eq_ok h
      obtain ⟨front, rfl, hfront⟩ := ih h
      refine ⟨arg :: front, rfl, ?_⟩
      rw [readAll, List.foldlM_cons, hr₁]
      exact hfront

/-- A side in front of the name of a subcommand is read up to that name. -/
lemma readBefore_append (hfront : r.readAll .before front = .ok r')
    (hname : r'.namesSubcommand name = true) :
    r.readBefore (front ++ name :: back) = .ok (r', some (name, back)) := by
  induction front generalizing r with
  | nil =>
    cases hfront
    rw [List.nil_append, readBefore, if_pos hname]
  | cons arg rest ih =>
    rw [readAll, List.foldlM_cons] at hfront
    obtain ⟨r₁, hr₁, hrest⟩ := exists_of_bind_eq_ok hfront
    rw [List.cons_append, readBefore,
      if_neg (by rw [namesSubcommand_eq_false hr₁]; exact Bool.false_ne_true), hr₁]
    exact ih hrest

/-- Accepted arguments without a `--` spell a line that means what they are accepted as. -/
theorem exists_line (hdashes : "--" ∉ args) (hparse : parse variable_ args = .ok i) :
    ∃ l : Line, l.Spelled args ∧ l.Means variable_ i := by
  obtain ⟨⟨outer, found⟩, hbefore, h⟩ := exists_of_bind_eq_ok hparse
  cases found with
  | none =>
    obtain ⟨g, -, h⟩ := exists_of_bind_eq_ok h
    split at h <;> cases h
  | some found =>
    obtain ⟨name, back⟩ := found
    dsimp only at h
    split at h
    · cases h
    · next kind hkind =>
      obtain ⟨front, rfl, hfront⟩ := readBefore_eq_ok hbefore
      obtain ⟨inner, hinner, h⟩ := exists_of_bind_eq_ok h
      obtain ⟨ga, hga, h⟩ := exists_of_bind_eq_ok h
      obtain ⟨sub, hsub, h⟩ := exists_of_bind_eq_ok h
      obtain ⟨gb, hgb, h⟩ := exists_of_bind_eq_ok h
      -- Both sides are read in the same way, each from nothing given.
      rw [finish_eq_ok_iff] at hga hgb
      rw [readAfter_eq_readAll] at hinner
      rw [List.mem_append, List.mem_cons, not_or, not_or] at hdashes
      obtain ⟨ss, hss, hgss⟩ := exists_words (ofGiven_open {}) hdashes.1 hfront hgb.1
      obtain ⟨ts, hts, hgts⟩ := exists_words (ofGiven_open {}) hdashes.2.2 hinner hga.1
      obtain ⟨hfits, rfl⟩ := addAll_eq_ok_iff.mp hgss
      obtain ⟨hfits', rfl⟩ := addAll_eq_ok_iff.mp hgts
      cases h
      exact ⟨⟨ss, kind, ts⟩, ⟨front, name, back, rfl, hkind, hss, hts⟩, hfits, hfits',
        fun h => ⟨hgb.2 h, hga.2 h⟩, hsub, rfl, rfl, rfl, rfl, rfl⟩

/-- Arguments that spell a line are accepted as what it means. -/
theorem Line.Spelled.parse {l : Line} (hspelled : l.Spelled args)
    (hmeans : l.Means variable_ i) :
    parse variable_ args = .ok i := by
  obtain ⟨front, name, back, rfl, hkind, hss, hts⟩ := hspelled
  obtain ⟨outer, houter, hopen, hgb⟩ :=
    hss.exists_readAll (ofGiven_open {}) (addAll_eq_ok_iff.mpr ⟨hmeans.front, rfl⟩)
  obtain ⟨inner, hinner, -, hga⟩ :=
    hts.exists_readAll (ofGiven_open {}) (addAll_eq_ok_iff.mpr ⟨hmeans.back, rfl⟩)
  have hname : outer.namesSubcommand name = true := by
    rw [namesSubcommand, hopen.plainOnly, hopen.notAwaiting, hkind]
    rfl
  have hgb' : outer.finish .before variable_ = .ok (Given.ofSettings l.front) :=
    finish_eq_ok_iff.mpr ⟨hgb, fun h => (hmeans.empty h).1⟩
  have hga' : inner.finish (.after l.kind) variable_ = .ok (Given.ofSettings l.back) :=
    finish_eq_ok_iff.mpr ⟨hga, fun h => (hmeans.empty h).2⟩
  have hinner' : readAfter l.kind {} back = .ok inner :=
    (readAfter_eq_readAll l.kind {} back).trans hinner
  have houter' : readBefore {} (front ++ name :: back) = .ok (outer, some (name, back)) :=
    readBefore_append houter hname
  simp only [Cli.parse, houter', bind, Except.bind, hkind, hinner', hga',
    hmeans.subcommand, hgb', pure, Except.pure]
  obtain ⟨json, quiet, verbose, config, otel, subcommand⟩ := i
  obtain rfl := hmeans.json
  obtain rfl := hmeans.quiet
  obtain rfl := hmeans.otel
  obtain rfl := hmeans.config
  obtain rfl := hmeans.verbose
  rfl

end

end Workplan.Cli
