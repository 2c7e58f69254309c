import Mathlib.Logic.Relation
import Mathlib.Tactic.Lemma
import Workplan.Proofs.Cli.Counts
import Workplan.Proofs.Cli.Detail

/-!
# Command lines in another order

Options of the program as a whole may stand on either side of the name of the subcommand.
A line in which no such option clashes with another one, and in which the options for
verbosity stand on one side, asks for the same as the line with all of them behind the
name (`Line.Movable.means_iff`), in any order (`Asks.perm`).  So such options can be moved
to any place where an option may stand, and more options for verbosity never make the log
less detailed unless they displace a directive of the configuration (`parse_rearranged`).
-/

namespace Workplan.Cli

/-! ## Lines with all settings on one side -/

/-- What a line asks for that has all its settings behind the name of the subcommand. -/
structure Asks (variable_ : Option String) (kind : SubcommandKind) (ss : List Setting)
    (i : Invocation) : Prop where
  fits : Fits (.after kind) ss
  nonempty : variable_ ≠ some ""
  subcommand : kind.withGiven (Given.ofSettings ss) = .ok i.subcommand
  json : i.json = (Given.ofSettings ss).json
  quiet : i.quiet = (Given.ofSettings ss).quiet
  otel : i.otel = (Given.ofSettings ss).otel
  config : i.config = ((Given.ofSettings ss).config <|> variable_)
  verbose : i.verbose = (Given.ofSettings ss).verbose

/-- A line in which it does not matter on which side options of the program stand. -/
structure Line.Movable (l : Line) : Prop where
  shared : ∀ s ∈ l.front, s.isShared = true
  apart : (l.front ++ l.back).Pairwise fun s t => ¬ s.Clashes t
  oneSided : l.front.count (.flag .verbose) = 0 ∨ l.back.count (.flag .verbose) = 0

section
variable {place place' : Place} {variable_ : Option String} {kind : SubcommandKind}
  {ss ts : List Setting} {s : Setting} {i : Invocation} {l l' : Line}

/-- A shared setting is valid on both sides. -/
lemma Setting.Valid.of_isShared (hvalid : s.Valid place) (hshared : s.isShared = true) :
    s.Valid place' := by
  cases s with
  | flag f => cases f <;> exact hvalid
  | value slot text => cases slot <;> first | exact hvalid | cases hshared

theorem Asks.perm (h : Asks variable_ kind ss i) (hperm : ss.Perm ts) :
    Asks variable_ kind ts i := by
  have heq := ofSettings_eq_of_perm h.fits.apart hperm
  obtain ⟨hfits, hnonempty, hsubcommand, hjson, hquiet, hotel, hconfig, hverbose⟩ := h
  rw [heq] at hsubcommand hjson hquiet hotel hconfig hverbose
  exact ⟨hfits.perm hperm, hnonempty, hsubcommand, hjson, hquiet, hotel, hconfig, hverbose⟩

/-- Options of the program say nothing to the subcommand. -/
lemma withGiven_append (hshared : ∀ s ∈ ss, s.isShared = true) (kind : SubcommandKind)
    (ts : List Setting) :
    kind.withGiven (Given.ofSettings (ss ++ ts)) = kind.withGiven
      (Given.ofSettings ts) := by
  have hflag (f : Flag) (hf : (Setting.flag f).isShared = false) :
      decide (.flag f ∈ ss ++ ts) = decide (Setting.flag f ∈ ts) := by
    have hnot : .flag f ∉ ss := fun h => by rw [hshared _ h] at hf; cases hf
    simp [hnot]
  have htext (slot : Slot) (hslot : slot ≠ .config) :
      (ss ++ ts).findSome? (Setting.text? slot) = ts.findSome? (Setting.text? slot) := by
    have hnone : ss.findSome? (Setting.text? slot) = none := by
      rw [List.findSome?_eq_none_iff]
      intro s hs
      rw [Option.eq_none_iff_forall_ne_some]
      intro text htext
      have hsingle := hshared _ hs
      rw [Setting.text?_eq_some_iff.mp htext] at hsingle
      cases slot <;> first | exact hslot rfl | cases hsingle
    rw [List.findSome?_append, hnone, Option.none_or]
  simp only [SubcommandKind.withGiven, Given.ofSettings, htext .operand (by decide),
    htext .delay (by decide), hflag .showPlan rfl, hflag .printYaml rfl]

/-- Of settings that do not clash, at most one names a file. -/
lemma config_eq_none_of_apart (hapart : (ss ++ ts).Pairwise fun s t => ¬ s.Clashes t)
    (hts : (Given.ofSettings ts).config.isSome = true) :
    (Given.ofSettings ss).config = none := by
  obtain ⟨text, htext⟩ := Option.isSome_iff_exists.mp hts
  obtain ⟨t, ht, hvalue⟩ := List.exists_of_findSome?_eq_some htext
  rw [Setting.text?_eq_some_iff.mp hvalue] at ht
  rw [List.pairwise_append] at hapart
  exact findSome?_text?_eq_none_iff.mpr fun s hs => hapart.2.2 s hs _ ht

namespace Line

/-- A configuration file is named on one side at most. -/
lemma Movable.config_append (h : l.Movable) (variable_ : Option String) :
    ((Given.ofSettings (l.front ++ l.back)).config <|> variable_) =
      ((Given.ofSettings l.back).config <|> (Given.ofSettings l.front).config <|>
        variable_) := by
  have happend : (Given.ofSettings (l.front ++ l.back)).config =
      (Given.ofSettings l.front).config.or (Given.ofSettings l.back).config :=
        List.findSome?_append
  rw [happend]
  cases hback : (Given.ofSettings l.back).config with
  | none => rw [Option.or_none]; rfl
  | some path => rw [config_eq_none_of_apart h.apart (by rw [hback]; rfl)]; rfl

/-- Verbosity is asked for on one side at most. -/
lemma Movable.verbose_append (h : l.Movable) :
    (Given.ofSettings (l.front ++ l.back)).verbose =
      if (Given.ofSettings l.back).verbose = 0 then (Given.ofSettings l.front).verbose
        else (Given.ofSettings l.back).verbose := by
  rcases h.oneSided with hfront | hback
  · have hzero : (Given.ofSettings l.front).verbose = 0 := by
      simp [Given.ofSettings, hfront]
    have happend : (Given.ofSettings (l.front ++ l.back)).verbose =
        (Given.ofSettings l.back).verbose := by
      simp [Given.ofSettings, hfront]
    rw [happend, hzero]
    split
    · assumption
    · rfl
  · have hzero : (Given.ofSettings l.back).verbose = 0 := by simp [Given.ofSettings, hback]
    rw [if_pos hzero]
    simp [Given.ofSettings, hback]

/-- Options of the program may as well stand behind the name of the subcommand. -/
theorem Movable.means_iff (h : l.Movable) :
    l.Means variable_ i ↔ Asks variable_ l.kind (l.front ++ l.back) i := by
  -- What may occur on either side is asked for if it occurs on one of them.
  have hjson : (Given.ofSettings (l.front ++ l.back)).json =
      ((Given.ofSettings l.front).json || (Given.ofSettings l.back).json) := by
        simp [Given.ofSettings]
  have hquiet : (Given.ofSettings (l.front ++ l.back)).quiet =
      ((Given.ofSettings l.front).quiet || (Given.ofSettings l.back).quiet) := by
        simp [Given.ofSettings]
  have hotel : (Given.ofSettings (l.front ++ l.back)).otel =
      ((Given.ofSettings l.front).otel || (Given.ofSettings l.back).otel) := by
        simp [Given.ofSettings]
  have hconfig := h.config_append variable_
  have hverbose := h.verbose_append
  have hsubcommand := withGiven_append h.shared l.kind l.back
  constructor
  · intro hmeans
    refine ⟨⟨fun s hs => ?_, h.apart⟩, fun hempty => ?_, ?_, ?_, ?_, ?_, ?_, ?_⟩
    · rcases List.mem_append.mp hs with hs | hs
      · exact (hmeans.front.valid s hs).of_isShared (h.shared s hs)
      · exact hmeans.back.valid s hs
    · -- An empty variable asks for a configuration file on both sides, and these
      -- would clash.
      obtain ⟨hfront, hback⟩ := hmeans.empty hempty
      rw [config_eq_none_of_apart h.apart hback] at hfront
      cases hfront
    · rw [hsubcommand]; exact hmeans.subcommand
    · rw [hjson]; exact hmeans.json
    · rw [hquiet]; exact hmeans.quiet
    · rw [hotel]; exact hmeans.otel
    · rw [hconfig]; exact hmeans.config
    · rw [hverbose]; exact hmeans.verbose
  · intro hasks
    obtain ⟨hfront, hback, -⟩ := List.pairwise_append.mp h.apart
    exact {
      front :=
        ⟨fun s hs => (hasks.fits.valid s (List.mem_append_left _ hs)).of_isShared
          (h.shared s hs), hfront⟩
      back := ⟨fun s hs => hasks.fits.valid s (List.mem_append_right _ hs), hback⟩
      empty := fun hempty => absurd hempty hasks.nonempty
      subcommand := by rw [← hsubcommand]; exact hasks.subcommand
      json := by rw [← hjson]; exact hasks.json
      quiet := by rw [← hquiet]; exact hasks.quiet
      otel := by rw [← hotel]; exact hasks.otel
      config := by rw [← hconfig]; exact hasks.config
      verbose := by rw [← hverbose]; exact hasks.verbose }

/-- Lines with the same settings ask for the same. -/
lemma Movable.means_of_perm (h : l.Movable) (h' : l'.Movable) (hkind : l'.kind = l.kind)
    (hperm : (l.front ++ l.back).Perm (l'.front ++ l'.back))
    (hmeans : l.Means variable_ i) : l'.Means variable_ i := by
  rw [h'.means_iff, hkind]
  exact (h.means_iff.mp hmeans).perm hperm

namespace Extends

variable {t : Setting}

lemma kind_eq (h : Extends ss l l') : l'.kind = l.kind := by
  cases h <;> rfl

lemma perm (h : Extends ss l l') :
    (l'.front ++ l'.back).Perm (ss ++ (l.front ++ l.back)) := by
  cases h with
  | front hfront => rw [← List.append_assoc]; exact hfront.append_right _
  | back hback => exact (hback.append_left _).trans (List.perm_append_comm_assoc _ _ _)

/-- By shared settings a front of shared settings is extended to one of shared settings. -/
lemma shared (h : Extends ss l l') (hss : ∀ t ∈ ss, t.isShared = true)
    (hfront : ∀ t ∈ l.front, t.isShared = true) :
    ∀ t ∈ l'.front, t.isShared = true := by
  cases h with
  | front hperm =>
    exact fun t ht => (List.mem_append.mp (hperm.mem_iff.mp ht)).elim (hss t) (hfront t)
  | back => exact hfront

lemma subset_front (h : Extends ss l l') : ∀ t ∈ l.front, t ∈ l'.front := by
  cases h with
  | front hfront => exact fun t ht => hfront.mem_iff.mpr (List.mem_append_right _ ht)
  | back => exact fun t ht => ht

lemma count_eq (h : Extends ss l l') (ht : t ∉ ss) :
    l'.front.count t = l.front.count t ∧ l'.back.count t = l.back.count t := by
  have hzero := List.count_eq_zero.mpr ht
  cases h with
  | front hfront =>
    rw [hfront.count_eq, List.count_append, hzero, Nat.zero_add]; exact ⟨rfl, rfl⟩
  | back hback =>
    rw [hback.count_eq, List.count_append, hzero, Nat.zero_add]; exact ⟨rfl, rfl⟩

/-- A setting that a line does not have is, in its extension, on one side at most. -/
lemma oneSided (h : Extends ss l l') (hfront : l.front.count t = 0)
    (hback : l.back.count t = 0) :
    l'.front.count t = 0 ∨ l'.back.count t = 0 := by
  cases h with
  | front => exact .inr hback
  | back => exact .inl hfront

end Extends

end Line

/-! ## Orderly arguments -/

/-- Arguments whose options for verbosity stand on one side of the name of the
subcommand. -/
def OneSided (args : List String) : Prop :=
  verbosityOf (sides args).1 = 0 ∨ verbosityOf (sides args).2 = 0

/-- Arguments without a `--` that name each option of the program at most once, and ask
for verbosity on one side of the name of the subcommand. -/
structure Orderly (args : List String) : Prop where
  dashes : "--" ∉ args
  once : ∀ option ∈ ["--json", "--quiet", "--otel", "--config"],
    (args.map optionName).count option ≤ 1
  oneSided : OneSided args

variable {args args' : List String}

/-- In front of the name of a subcommand there are no options of a subcommand. -/
lemma Words.isShared (h : Words .before args ss) (hs : s ∈ ss)
    (hvalid : s.Valid .before) : s.isShared = true := by
  have hslot {name : String} {slot : Slot} {text : String}
      (h : Place.before.slot? name = some slot) :
      (Setting.value slot text).isShared = true := by
    obtain ⟨rfl, hoperand⟩ := Place.name_of_slot? h
    cases slot with
    | config => rfl
    | delay => exact absurd h (by decide)
    | operand => exact absurd rfl hoperand
  -- Every word says one setting, or verbosity several times.
  induction h with
  | nil => cases hs
  | @cons word args ss ts hword _ ih =>
    rcases List.mem_append.mp hs with hs | hs
    · cases hword with
      | @long name f hflag =>
        obtain rfl := List.mem_singleton.mp hs
        obtain rfl := Place.name_of_flag? hflag
        cases f with
        | showPlan => exact absurd hflag (by decide)
        | printYaml => exact absurd hflag (by decide)
        | help => exact hvalid.elim
        | version => exact hvalid.elim
        | _ => rfl
      | letters n =>
        obtain rfl := List.eq_of_mem_replicate hs
        rfl
      | attached _ h =>
        obtain rfl := List.mem_singleton.mp hs
        exact hslot h
      | separate h _ =>
        obtain rfl := List.mem_singleton.mp hs
        exact hslot h
      | plain hplace _ => exact absurd rfl hplace
    · exact ih hs

/-- Settings that clash are settings of one option. -/
lemma Setting.Clashes.option_eq {t : Setting} (h : s.Clashes t) : s.option = t.option := by
  cases s <;> cases t
  · exact congrArg (fun f => "--" ++ Flag.name f) h.1
  · cases h
  · cases h
  · exact congrArg (fun slot => "--" ++ Slot.name slot) h

lemma Setting.Clashes.isSingle_eq {t : Setting} (h : s.Clashes t) :
    s.isSingle = t.isSingle := by
  cases s <;> cases t
  · exact congrArg (fun f => Setting.isSingle (.flag f)) h.1
  · cases h
  · cases h
  · next slot text slot' text' =>
    obtain rfl : slot = slot' := h
    cases slot <;> rfl

/-- There are four options that may be given once and on either side. -/
lemma Setting.option_mem (h : s.isSingle = true) :
    s.option ∈ ["--json", "--quiet", "--otel", "--config"] := by
  cases s with
  | flag f =>
    cases f with
    | json | quiet | otel => decide
    | _ => cases h
  | value slot text =>
    cases slot with
    | config =>
      show "--" ++ "config" ∈ ["--json", "--quiet", "--otel", "--config"]
      decide
    | _ => cases h

lemma Words.mem_optionName_of_isSingle {ss : List Setting} (h : Words place args ss)
    (hs : s ∈ ss) (hsingle : s.isSingle = true) : s.option ∈ args.map optionName :=
  h.mem_optionName hs (by rintro rfl; cases hsingle) (by rintro text rfl; cases hsingle)

/-- Letters for verbosity stand on one side of the arguments exactly if they do on one
side of the line. -/
lemma Line.Spelled.oneSided_iff (h : l.Spelled args) :
    OneSided args ↔ l.front.count (.flag .verbose) = 0 ∨
      l.back.count (.flag .verbose) = 0 := by
  rw [OneSided, h.sides.1.verbosityOf_eq, h.sides.2.verbosityOf_eq]

/-- Accepted arguments that are orderly spell a line in which options can be moved. -/
lemma Orderly.movable (horderly : Orderly args) (hspelled : l.Spelled args)
    (hmeans : l.Means variable_ i) :
    l.Movable where
  shared := by
    obtain ⟨front, name, back, -, -, hfront, -⟩ := hspelled
    exact fun s hs => hfront.isShared hs (hmeans.front.valid s hs)
  apart := by
    obtain ⟨front, name, back, rfl, -, hfront, hback⟩ := hspelled
    refine List.pairwise_append.mpr ⟨hmeans.front.apart, hmeans.back.apart,
      fun s hs t ht hclash => ?_⟩
    have hsingle : s.isSingle = true := by
      have hshared := hfront.isShared hs (hmeans.front.valid s hs)
      rw [Setting.isShared, Bool.or_eq_true, beq_iff_eq] at hshared
      refine hshared.resolve_right ?_
      rintro rfl
      cases t with
      | flag f => exact hclash.2 rfl
      | value slot text => exact hclash
    -- Both settings would count among the arguments, one in front of the name and
    -- one behind it.
    have hs' := List.one_le_count_iff.mpr (hfront.mem_optionName_of_isSingle hs hsingle)
    have ht' :=
      List.one_le_count_iff.mpr
        (hback.mem_optionName_of_isSingle ht (hclash.isSingle_eq ▸ hsingle))
    have honce := horderly.once s.option (Setting.option_mem hsingle)
    rw [List.map_append, List.map_cons, List.count_append] at honce
    have hcons := List.count_le_count_cons (a := s.option) (b := optionName name)
      (l := back.map optionName)
    rw [← hclash.option_eq] at ht'
    omega
  oneSided := hspelled.oneSided_iff.mp horderly.oneSided

/-! ## Moved options -/

/-- Arguments in which an option of the program, or all options for verbosity together,
stand in another place. -/
inductive Moved : List String → List String → Prop
  | option {u xs ys xs' ys' : List String} : SingleOption u → xs ++ ys = xs' ++ ys' →
      isOptionPosition xs' = true →
      Moved (xs ++ u ++ ys) (xs' ++ u ++ ys')
  | verbosity {args xs ys : List String} : args.filter (verbosity · == 0) = xs ++ ys →
      isOptionPosition xs = true →
      Moved args (xs ++ args.filter (verbosity · != 0) ++ ys)

/-- Arguments into which options for verbosity have been put where options may stand. -/
inductive Interspersed (args : List String) : List String → Prop
  | refl : Interspersed args args
  | insert {arg : String} {xs ys : List String} : Interspersed args (xs ++ ys) →
      isOptionPosition xs = true →
      verbosity arg ≠ 0 → Interspersed args (xs ++ [arg] ++ ys)

/-- Arguments that ask for no less verbosity, and for the same otherwise in the
same order. -/
structure MoreVerbose (args args' : List String) : Prop where
  interspersed : Interspersed (args.filter (verbosity · == 0)) args'
  le : verbosityOf args ≤ verbosityOf args'

lemma Word.words {word : List String} (h : Word place word ss) : Words place word ss := by
  have hcons := Words.cons h .nil
  rwa [List.append_nil, List.append_nil] at hcons

lemma Setting.ne_verbose (h : s.isSingle = true) : s ≠ .flag .verbose := by
  rintro rfl
  cases h

/-- Without the letters for verbosity the arguments still spell a line, without these
settings. -/
lemma Line.Spelled.withoutVerbosity (h : l.Spelled args) :
    Spelled ⟨l.front.filter (· != .flag .verbose), l.kind,
      l.back.filter (· != .flag .verbose)⟩ (args.filter (verbosity · == 0)) := by
  obtain ⟨front, name, back, rfl, hkind, hfront, hback⟩ := h
  have hname : verbosity name = 0 := verbosity_of_isPlain (isPlain_of_named? hkind)
  refine ⟨_, name, _, ?_, hkind, hfront.withoutVerbosity, hback.withoutVerbosity⟩
  rw [List.filter_append, List.filter_cons_of_pos (by simpa using hname)]

/-- The arguments that count are those that ask for more detail. -/
lemma verbosityOf_filter (args : List String) :
    verbosityOf (args.filter (verbosity · != 0)) = verbosityOf args := by
  induction args with
  | nil => rfl
  | cons arg args ih =>
    by_cases hzero : verbosity arg = 0
    · rw [List.filter_cons_of_neg (by simpa using hzero), ih, verbosityOf,
        hzero, Nat.zero_add]
    · rw [List.filter_cons_of_pos (by simpa using hzero), verbosityOf, verbosityOf, ih]

lemma perm_replicate_count_append (ss : List Setting) (s : Setting) :
    ss.Perm (List.replicate (ss.count s) s ++ ss.filter (· != s)) := by
  rw [← List.filter_beq]
  exact (List.filter_append_perm (· == s) ss).symm

lemma isShared_of_mem_replicate {n : Nat} :
    ∀ t ∈ List.replicate n (Setting.flag .verbose), t.isShared = true :=
  fun _ ht => List.eq_of_mem_replicate ht ▸ rfl

/-- What is moved stays in the line. -/
lemma Moved.line (h : Moved args args') (hspelled : l.Spelled args) (hmovable : l.Movable) :
    ∃ l' : Line, l'.Spelled args' ∧ l'.Movable ∧ l'.kind = l.kind ∧
      (l.front ++ l.back).Perm (l'.front ++ l'.back) := by
  cases h with
  | @option u xs ys xs' ys' hu heq hposition =>
    -- The option is taken out of the line and put in again elsewhere.
    obtain ⟨s, l₀, hs, hword, hl₀, hext⟩ := hspelled.remove hu
    rw [heq] at hl₀
    obtain ⟨l', hl', hext'⟩ := hl₀.insert hposition fun place => (hword place).words
    have hperm := hext.perm.trans hext'.perm.symm
    have hverbose : .flag .verbose ∉ [s] :=
      fun h => Setting.ne_verbose hs (List.mem_singleton.mp h).symm
    obtain ⟨hfront, hback⟩ := hext.count_eq hverbose
    obtain ⟨hfront', hback'⟩ := hext'.count_eq hverbose
    have hshared : ∀ t ∈ [s], t.isShared = true := by
      intro t ht
      rw [List.mem_singleton.mp ht, Setting.isShared, hs]
      rfl
    refine ⟨l', hl', ⟨?_, ?_, ?_⟩, hext'.kind_eq.trans hext.kind_eq.symm, hperm⟩
    · exact hext'.shared hshared fun t ht => hmovable.shared t (hext.subset_front t ht)
    · exact apart_of_perm hperm hmovable.apart
    · rw [hfront', hback', ← hfront, ← hback]
      exact hmovable.oneSided
  | @verbosity _ xs ys heq hposition =>
    have hl₀ := hspelled.withoutVerbosity
    rw [heq] at hl₀
    have hall : ∀ arg ∈ args.filter (Cli.verbosity · != 0), Cli.verbosity arg ≠ 0 :=
      fun arg harg => bne_iff_ne.mp (List.mem_filter.mp harg).2
    obtain ⟨l', hl', hext⟩ := hl₀.insert hposition (words_of_verbosity hall)
    have hperm : (l.front ++ l.back).Perm (l'.front ++ l'.back) := by
      have hcount := perm_replicate_count_append (l.front ++ l.back) (.flag .verbose)
      rw [← hspelled.verbosityOf_eq, ← verbosityOf_filter, List.filter_append] at hcount
      exact hcount.trans hext.perm.symm
    refine ⟨l', hl', ⟨?_, ?_, ?_⟩, hext.kind_eq, hperm⟩
    · exact hext.shared isShared_of_mem_replicate fun t ht =>
        hmovable.shared t (List.mem_filter.mp ht).1
    · exact apart_of_perm hperm hmovable.apart
    · have hnone (ss : List Setting) : (ss.filter (· != .flag .verbose)).count
          (.flag .verbose) = 0 :=
        List.count_eq_zero.mpr fun h => absurd rfl (bne_iff_ne.mp (List.mem_filter.mp h).2)
      exact hext.oneSided (hnone _) (hnone _)

/-- A move changes the order of the arguments only. -/
lemma Moved.perm (h : Moved args args') : args.Perm args' := by
  cases h with
  | @option u xs ys xs' ys' _ heq _ =>
    have hmove (xs ys : List String) : (xs ++ u ++ ys).Perm (u ++ (xs ++ ys)) := by
      rw [List.append_assoc]
      exact List.perm_append_comm_assoc xs u ys
    exact (hmove xs ys).trans (heq ▸ (hmove xs' ys').symm)
  | @verbosity _ xs ys heq _ =>
    have hmove : (xs ++ (args.filter (Cli.verbosity · != 0) ++ ys)).Perm
        (args.filter (Cli.verbosity · != 0) ++ args.filter (Cli.verbosity · == 0)) :=
      heq ▸ List.perm_append_comm_assoc xs _ ys
    rw [List.append_assoc]
    refine List.Perm.trans ?_ hmove.symm
    have hsplit := List.filter_append_perm (Cli.verbosity · != 0) args
    simp only [bne, Bool.not_not] at hsplit
    exact hsplit.symm

/-- Options can be moved in arguments that are accepted, and then be moved again. -/
lemma Moved.parse (h : Moved args args') (horderly : Orderly args)
    (hparse : parse variable_ args = .ok i) :
    Orderly args' ∧ parse variable_ args' = .ok i := by
  obtain ⟨l, hspelled, hmeans⟩ := exists_line horderly.dashes hparse
  have hmovable := horderly.movable hspelled hmeans
  obtain ⟨l', hspelled', hmovable', hkind, hperm⟩ := h.line hspelled hmovable
  have hmeans' := hmovable.means_of_perm hmovable' hkind hperm hmeans
  refine ⟨⟨?_, ?_, hspelled'.oneSided_iff.mpr hmovable'.oneSided⟩, hspelled'.parse hmeans'⟩
  · rw [← h.perm.mem_iff]
    exact horderly.dashes
  · intro option hoption
    rw [← (h.perm.map optionName).count_eq]
    exact horderly.once option hoption

/-- Options can be moved again and again. -/
lemma Moved.parse_of_reflTransGen (h : Relation.ReflTransGen Moved args args')
    (horderly : Orderly args) (hparse : Cli.parse variable_ args = .ok i) :
    Orderly args' ∧ Cli.parse variable_ args' = .ok i := by
  induction h with
  | refl => exact ⟨horderly, hparse⟩
  | tail _ hmoved ih => exact hmoved.parse ih.1 ih.2

/-- The verbosity that is read from orderly arguments is the number of letters in them, up
to the limit. -/
lemma Orderly.verbose_eq (horderly : Orderly args)
    (hparse : Cli.parse variable_ args = .ok i) :
    i.verbose = min (verbosityOf args) verbosityLimit := by
  obtain ⟨l, hspelled, hmeans⟩ := exists_line horderly.dashes hparse
  rw [((horderly.movable hspelled hmeans).means_iff.mp hmeans).verbose,
    hspelled.verbosityOf_eq]
  rfl

/-- Further settings for verbosity change the count and nothing else. -/
lemma ofSettings_verbose_append (n : Nat) (ss : List Setting) :
    Given.ofSettings (List.replicate n (.flag .verbose) ++ ss) =
      { Given.ofSettings ss with
        verbose := min (n + ss.count (.flag .verbose)) verbosityLimit } := by
  have hflag (f : Flag) (hf : f ≠ .verbose) :
      decide (.flag f ∈ List.replicate n (Setting.flag .verbose) ++ ss) =
        decide (.flag f ∈ ss) := by
    simp [List.mem_replicate, hf]
  have htext (slot : Slot) : (List.replicate n (Setting.flag .verbose) ++ ss).findSome?
      (Setting.text? slot) =
      ss.findSome? (Setting.text? slot) := by
    have hnone : (List.replicate n (Setting.flag .verbose)).findSome?
        (Setting.text? slot) = none :=
      List.findSome?_eq_none_iff.mpr fun s hs => List.eq_of_mem_replicate hs ▸ rfl
    rw [List.findSome?_append, hnone, Option.none_or]
  simp only [Given.ofSettings, htext, List.count_append, List.count_replicate_self,
    hflag .json (by decide), hflag .quiet (by decide), hflag .otel (by decide),
    hflag .showPlan (by decide), hflag .printYaml (by decide)]

lemma not_clashes_verbose (s : Setting) : ¬ Setting.Clashes (.flag .verbose) s := by
  cases s with
  | flag f => exact fun h => h.2 rfl
  | value slot text => exact not_false

/-- With another number of settings for verbosity, the same is asked for otherwise. -/
lemma Asks.withVerbosity {m : Nat}
    (h : Asks variable_ kind (List.replicate m (.flag .verbose) ++ ss) i) (n : Nat) :
    Asks variable_ kind (List.replicate n (.flag .verbose) ++ ss)
      { i with verbose := min (n + ss.count (.flag .verbose)) verbosityLimit } := by
  have hgiven := ofSettings_verbose_append n ss
  have hgiven' := ofSettings_verbose_append m ss
  obtain ⟨⟨hvalid, hapart⟩, hnonempty, hsubcommand, hjson, hquiet, hotel, hconfig, -⟩ := h
  rw [withGiven_append isShared_of_mem_replicate] at hsubcommand
  rw [hgiven'] at hjson hquiet hotel hconfig
  have hall : ∀ s ∈ List.replicate n (Setting.flag .verbose), s = .flag .verbose :=
    fun s hs => List.eq_of_mem_replicate hs
  -- Verbosity clashes with nothing, and no other answer depends on it.
  refine ⟨⟨fun s hs => ?_,
    List.pairwise_append.mpr ⟨?_, (List.pairwise_append.mp hapart).2.1, ?_⟩⟩, hnonempty,
    ?_, ?_, ?_, ?_, ?_, ?_⟩
  · rcases List.mem_append.mp hs with hs | hs
    · rw [hall s hs]
      trivial
    · exact hvalid s (List.mem_append_right _ hs)
  · exact List.pairwise_replicate.mpr (.inr (not_clashes_verbose _))
  · intro s hs t _
    rw [hall s hs]
    exact not_clashes_verbose t
  · rw [withGiven_append isShared_of_mem_replicate]
    exact hsubcommand
  all_goals rw [hgiven]
  · exact hjson
  · exact hquiet
  · exact hotel
  · exact hconfig

/-- Options for verbosity add to the settings of a line. -/
lemma Interspersed.line (h : Interspersed args args') (hspelled : l.Spelled args)
    (hshared : ∀ s ∈ l.front, s.isShared = true) :
    ∃ l' n, Line.Spelled l' args' ∧ l'.kind = l.kind ∧ (∀ s ∈ l'.front, s.isShared = true) ∧
      (l'.front ++ l'.back).Perm
        (List.replicate n (.flag .verbose) ++ (l.front ++ l.back)) := by
  induction h with
  | refl => exact ⟨l, 0, hspelled, rfl, hshared, .refl _⟩
  | @insert arg xs ys _ hposition harg ih =>
    obtain ⟨l₁, n, hl₁, hkind, hfront, hperm⟩ := ih
    obtain ⟨l', hl', hext⟩ := hl₁.insert hposition fun place =>
      (word_of_verbosity harg place).words
    refine ⟨l', verbosity arg + n, hl', hext.kind_eq.trans hkind,
      hext.shared isShared_of_mem_replicate hfront, ?_⟩
    rw [← List.replicate_append_replicate, List.append_assoc]
    exact hext.perm.trans (hperm.append_left _)

/-- Options for verbosity change nothing but the count. -/
lemma MoreVerbose.parse (h : MoreVerbose args args') (horderly : Orderly args)
    (honeSided : OneSided args') (hparse : Cli.parse variable_ args = .ok i) :
    Cli.parse variable_ args' =
      .ok { i with verbose := min (verbosityOf args') verbosityLimit } := by
  obtain ⟨l, hspelled, hmeans⟩ := exists_line horderly.dashes hparse
  have hmovable := horderly.movable hspelled hmeans
  -- Both lists are made from the same arguments without any verbosity.
  obtain ⟨l', n, hspelled', hkind, hshared, hperm⟩ :=
    h.interspersed.line hspelled.withoutVerbosity
    fun s hs => hmovable.shared s (List.mem_filter.mp hs).1
  have hsplit := perm_replicate_count_append (l.front ++ l.back) (.flag .verbose)
  have hasks := ((hmovable.means_iff.mp hmeans).perm hsplit).withVerbosity n
  rw [List.filter_append] at hasks
  have hmovable' : l'.Movable :=
    ⟨hshared, apart_of_perm hperm.symm hasks.fits.apart,
      hspelled'.oneSided_iff.mp honeSided⟩
  refine hspelled'.parse (hmovable'.means_iff.mpr ?_)
  rw [hkind, hspelled'.verbosityOf_eq, hperm.count_eq, List.count_append,
    List.count_replicate_self]
  exact hasks.perm hperm.symm

/-- Options of the program can be moved in arguments that are accepted, and the arguments
ask for the same.  The count of options for verbosity stops at its limit, and with further
ones the log is no less detailed unless a directive of the configuration is displaced. -/
theorem parse_rearranged (F : LogFilter.Filtering) (horderly : Orderly args)
    (hparse : parse variable_ args = .ok i) :
    (∀ args', Relation.ReflTransGen Moved args args' → parse variable_ args' = .ok i) ∧
      i.verbose = min (verbosityOf args) 255 ∧
      ∀ args', MoreVerbose args args' → OneSided args' →
        ∃ i', parse variable_ args' = .ok i' ∧
          i' = { i with verbose := min (verbosityOf args') 255 } ∧
          ∀ configured,
            (i.verbose = 0 → i.quiet = false → ∀ directive, configured = some directive →
              F.Within directive "info") →
            F.Within (LogFilter.choose i.verbose i.quiet configured)
              (LogFilter.choose i'.verbose i'.quiet configured) := by
  have hverbose := horderly.verbose_eq hparse
  refine ⟨fun args' hmoved => (Moved.parse_of_reflTransGen hmoved horderly hparse).2,
    hverbose, ?_⟩
  intro args' hmore honeSided
  refine ⟨_, hmore.parse horderly honeSided hparse, rfl, fun configured hconfigured => ?_⟩
  have hle : i.verbose ≤ min (verbosityOf args') verbosityLimit := by
    have hmono := hmore.le
    omega
  exact LogFilter.Filtering.within_choose hle hconfigured

/-- An option with its value is moved, then all options for verbosity are, or there are
more of them. -/
theorem parse_rearranged_config :
    let args := ["-vv", "--config", "a.toml", "run", "--json", "p.yaml", "--show-plan"]
    let i : Invocation :=
      { json := true, quiet := false, verbose := 2, config := some "a.toml", otel := false,
        subcommand := .run "p.yaml" true }
    parse (some "env.toml") args = .ok i ∧
      parse (some "env.toml") ["run", "--json", "p.yaml", "--config", "a.toml",
        "--show-plan", "-vv"] = .ok i ∧
      parse (some "env.toml")
          ["-v", "--config", "a.toml", "--verbose", "-vv", "run", "--json",
            "p.yaml", "--show-plan"] =
        .ok { i with verbose := 4 } ∧
      LogFilter.Filtering.ofLevels.Within "debug" "trace" := by
  intro args i
  have hparse : parse (some "env.toml") args = .ok i := rfl
  obtain ⟨hmoved, -, hmore⟩ :=
    parse_rearranged LogFilter.Filtering.ofLevels ⟨by decide, by decide,
      .inr (by decide)⟩ hparse
  have hconfig : Moved args ["-vv", "run", "--json", "p.yaml", "--config",
      "a.toml", "--show-plan"] :=
    @Moved.option _ ["-vv"] ["run", "--json", "p.yaml", "--show-plan"]
      ["-vv", "run", "--json", "p.yaml"] ["--show-plan"]
      (.config "a.toml") rfl (by decide)
  have hverbosity : Moved ["-vv", "run", "--json", "p.yaml", "--config",
      "a.toml", "--show-plan"]
      ["run", "--json", "p.yaml", "--config", "a.toml", "--show-plan", "-vv"] :=
    @Moved.verbosity _ ["run", "--json", "p.yaml", "--config", "a.toml", "--show-plan"] []
      (by decide) (by decide)
  have hinserted : Interspersed ["--config", "a.toml", "run", "--json",
      "p.yaml", "--show-plan"]
      ["-v", "--config", "a.toml", "--verbose", "-vv", "run", "--json",
        "p.yaml", "--show-plan"] :=
    @Interspersed.insert _ "-v"
      [] _ (@Interspersed.insert _ "--verbose" ["--config", "a.toml"] _
      (@Interspersed.insert _ "-vv" ["--config", "a.toml"] _ .refl (by decide)
        (by decide)) (by decide) (by decide))
      (by decide) (by decide)
  obtain ⟨_, hparse', rfl, hdetail⟩ := hmore
    ["-v", "--config", "a.toml", "--verbose", "-vv", "run", "--json",
      "p.yaml", "--show-plan"]
    ⟨hinserted, by decide⟩ (.inr (by decide))
  exact ⟨hparse, hmoved _ (.tail (.single hconfig) hverbosity), hparse', hdetail none nofun⟩

/-- The first option for verbosity displaces a directive of the configuration that
shows more. -/
theorem configured_trace_displaced :
    ∃ i i', parse none ["run", "plan.yaml"] = .ok i ∧
      parse none ["run", "plan.yaml", "-v"] = .ok i' ∧
      Orderly ["run", "plan.yaml"] ∧
      MoreVerbose ["run", "plan.yaml"] ["run", "plan.yaml", "-v"] ∧
      OneSided ["run", "plan.yaml", "-v"] ∧
      ¬ LogFilter.Filtering.ofLevels.Within
        (LogFilter.choose i.verbose i.quiet (some "trace"))
        (LogFilter.choose i'.verbose i'.quiet (some "trace")) := by
  have hmore : MoreVerbose ["run", "plan.yaml"] ["run", "plan.yaml", "-v"] :=
    ⟨@Interspersed.insert _ "-v" ["run", "plan.yaml"] [] .refl (by decide) (by decide),
      by decide⟩
  refine ⟨_, _, rfl, rfl, ⟨by decide, by decide, .inl (by decide)⟩, hmore,
    .inl (by decide), fun hwithin => ?_⟩
  obtain ⟨d, hname, hrank⟩ := hwithin .trace ⟨.trace, rfl, Nat.le_refl _⟩
  revert hname hrank
  cases d <;> decide

end

end Workplan.Cli
