import Mathlib.Tactic.Lemma
import Workplan.Proofs.Cli.Positions

/-!
# Counting options

How much verbosity arguments ask for, which options they name and where the name of the
subcommand stands can be told from the arguments one by one.  In a line this agrees with
its settings (`Words.verbosityOf_eq`, `Words.mem_optionName`, `Line.Spelled.sides`).
-/

namespace Workplan.Cli

/-- How often an argument asks for verbosity. -/
def verbosity (arg : String) : Nat :=
  if arg = "--verbose" then 1
  else
    match arg.toList with
    | '-' :: letters => if letters.all (· == 'v') then letters.length else 0
    | _ => 0

/-- How often arguments ask for verbosity. -/
def verbosityOf : List String → Nat
  | [] => 0
  | arg :: args => verbosity arg + verbosityOf args

/-- An option without its value. -/
def optionName (arg : String) : String :=
  String.ofList (arg.toList.takeWhile (· != '='))

/-- The arguments in front of the name of the subcommand and those behind it, where
some arguments have been passed already.  The name is the first plain argument that
is no value. -/
def sidesFrom (passed : List String) : List String → List String × List String
  | [] => (passed, [])
  | arg :: rest =>
    if isOptionPosition passed && isPlain arg then (passed, rest)
    else sidesFrom (passed ++ [arg]) rest

/-- The arguments in front of the name of the subcommand and those behind it. -/
def sides (args : List String) : List String × List String :=
  sidesFrom [] args

section
variable {place : Place} {word args front back passed : List String}
  {arg name text : String} {ss : List Setting} {slot : Slot} {s : Setting}

/-! ## Verbosity -/

lemma verbosityOf_append (args args' : List String) :
    verbosityOf (args ++ args') = verbosityOf args + verbosityOf args' := by
  induction args with
  | nil => rw [List.nil_append, verbosityOf, Nat.zero_add]
  | cons arg args ih => rw [List.cons_append, verbosityOf, verbosityOf, ih, Nat.add_assoc]

lemma verbosityOf_singleton (arg : String) : verbosityOf [arg] = verbosity arg := rfl

theorem verbosity_of_isPlain (h : isPlain arg = true) : verbosity arg = 0 := by
  unfold verbosity
  split
  · next heq => exact absurd (heq ▸ h) (by decide)
  · split
    · next letters htoList =>
      cases letters with
      | nil => rfl
      | cons c rest =>
        rw [isPlain_eq_false_iff.mpr ⟨c, rest, htoList⟩] at h
        cases h
    · rfl

lemma verbosity_letters (n : Nat) :
    verbosity (String.ofList ('-' :: List.replicate (n + 1) 'v')) = n + 1 := by
  have hne : String.ofList ('-' :: List.replicate (n + 1) 'v') ≠ "--verbose" := by
    intro heq
    have htoList := congrArg String.toList heq
    rw [String.toList_ofList, List.replicate_succ] at htoList
    exact absurd htoList (by simp)
  rw [verbosity, if_neg hne, String.toList_ofList]
  exact (if_pos (by simp)).trans List.length_replicate

/-- An option with an attached value asks for no more detail, whatever the value is. -/
lemma verbosity_attached (name text : String) :
    verbosity ("--" ++ name ++ "=" ++ text) = 0 := by
  have hne : "--" ++ name ++ "=" ++ text ≠ "--verbose" := by
    intro heq
    have hmem : '=' ∈ ("--" ++ name ++ "=" ++ text).toList := by
      rw [toList_attached]
      simp
    rw [heq] at hmem
    exact absurd hmem (by decide)
  rw [verbosity, if_neg hne, toList_attached]
  exact if_neg (by simp)

lemma verbosity_long (hslot : slot ≠ .operand) : verbosity ("--" ++ slot.name) = 0 := by
  cases slot with
  | operand => exact absurd rfl hslot
  | _ => decide

/-- Either all of a word asks for verbosity, or nothing of it. -/
lemma Word.verbosity (h : Word place word ss) :
    (∃ arg, word = [arg] ∧ Cli.verbosity arg ≠ 0 ∧ ss = List.replicate (Cli.verbosity arg)
      (.flag .verbose)) ∨
      (∀ arg ∈ word, Cli.verbosity arg = 0) ∧ .flag .verbose ∉ ss := by
  cases h with
  | @long name f hflag =>
    obtain rfl := Place.name_of_flag? hflag
    cases f with
    | verbose => exact .inl ⟨_, rfl, by decide, rfl⟩
    | _ => exact .inr ⟨by decide, by decide⟩
  | letters n =>
    exact .inl ⟨_, rfl, by rw [verbosity_letters]; exact Nat.succ_ne_zero n,
      by rw [verbosity_letters]⟩
  | @attached name slot text hslot =>
    exact .inr ⟨by simpa using verbosity_attached name text, by simp⟩
  | @separate name slot text hslot hplain =>
    obtain ⟨rfl, hoperand⟩ := Place.name_of_slot? hslot
    exact .inr ⟨by simpa using ⟨verbosity_long hoperand, verbosity_of_isPlain hplain⟩,
      by simp⟩
  | plain _ hplain => exact .inr ⟨by simpa using verbosity_of_isPlain hplain, by simp⟩

lemma verbosityOf_eq_zero (h : ∀ arg ∈ args, verbosity arg = 0) : verbosityOf args = 0 := by
  induction args with
  | nil => rfl
  | cons arg args ih =>
    rw [List.forall_mem_cons] at h
    rw [verbosityOf, h.1, Nat.zero_add]
    exact ih h.2

/-- The letters in the arguments are as many as their words say, so that none hides in a
value. -/
theorem Words.verbosityOf_eq (h : Words place args ss) :
    verbosityOf args = ss.count (.flag .verbose) := by
  induction h with
  | nil => rfl
  | cons hword _ ih =>
    rw [verbosityOf_append, List.count_append, ih]
    obtain ⟨arg, rfl, -, rfl⟩ | ⟨hzero, hss⟩ := hword.verbosity
    · rw [List.count_replicate_self, verbosityOf_singleton]
    · rw [verbosityOf_eq_zero hzero, List.count_eq_zero.mpr hss]

/-- What remains when all options for verbosity are taken out. -/
theorem Words.withoutVerbosity (h : Words place args ss) :
    Words place (args.filter (verbosity · == 0)) (ss.filter (· != .flag .verbose)) := by
  induction h with
  | nil => exact .nil
  | cons hword _ ih =>
    rw [List.filter_append, List.filter_append]
    obtain ⟨arg, rfl, hne, rfl⟩ | ⟨hzero, hss⟩ := hword.verbosity
    · rw [List.filter_cons_of_neg (by simpa using hne), List.filter_nil,
        List.filter_replicate_of_neg (by simp)]
      exact ih
    · rw [List.filter_eq_self.mpr fun arg harg => by simp [hzero arg harg],
        List.filter_eq_self.mpr fun s hs => bne_iff_ne.mpr (ne_of_mem_of_not_mem hs hss)]
      exact .cons hword ih

/-- An argument that asks for more detail is a word that says nothing else. -/
theorem word_of_verbosity (h : verbosity arg ≠ 0) (place : Place) :
    Word place [arg] (List.replicate (verbosity arg) (.flag .verbose)) := by
  by_cases hverbose : arg = "--verbose"
  · subst hverbose
    have hname : "--verbose" = "--" ++ "verbose" := by decide
    exact hname ▸ .long rfl
  · rw [verbosity, if_neg hverbose] at h ⊢
    split at h
    · next letters htoList =>
      split at h
      · next hall =>
        obtain ⟨n, hn⟩ := Nat.exists_eq_succ_of_ne_zero h
        have hletters : letters = List.replicate (n + 1) 'v' :=
          List.eq_replicate_iff.mpr
            ⟨hn, fun c hc => by simpa using List.all_eq_true.mp hall c hc⟩
        obtain rfl : arg = String.ofList ('-' :: List.replicate (n + 1) 'v') := by
          rw [← hletters, ← htoList, String.ofList_toList]
        rw [if_pos hall, hn]
        exact .letters n
      · exact absurd rfl h
    · exact absurd rfl h

/-- Options for verbosity may stand on either side. -/
theorem words_of_verbosity (h : ∀ arg ∈ args, verbosity arg ≠ 0) (place : Place) :
    Words place args (List.replicate (verbosityOf args) (.flag .verbose)) := by
  induction args with
  | nil => exact .nil
  | cons arg args ih =>
    rw [← List.singleton_append, verbosityOf_append, ← List.replicate_append_replicate]
    exact .cons (word_of_verbosity (h arg List.mem_cons_self) place)
      (ih fun a ha => h a (List.mem_cons_of_mem _ ha))

/-! ## Names of options -/

/-- How the option of a setting is spelled. -/
def Setting.option : Setting → String
  | .flag f => "--" ++ f.name
  | .value slot _ => "--" ++ slot.name

/-- The name of an option ends at the first sign of equality. -/
lemma optionName_eq {rest : List Char} (hname : IsName name)
    (harg : arg.toList = '-' :: '-' :: (name.toList ++ rest))
    (hrest : rest.takeWhile (· != '=') = []) : optionName arg = "--" ++ name := by
  have hall : ∀ c ∈ name.toList, (c != '=') = true :=
    fun c hc => bne_iff_ne.mpr (ne_of_mem_of_not_mem hc hname.noEquals)
  rw [optionName, harg, ← String.toList_inj, String.toList_ofList, toList_long,
    List.takeWhile_cons_of_pos (by decide), List.takeWhile_cons_of_pos (by decide),
    List.takeWhile_append_of_pos hall, hrest, List.append_nil]

/-- A setting other than verbosity is made by an option of its name, if not by a
plain argument. -/
lemma Word.mem_optionName (h : Word place word ss) (hs : s ∈ ss)
    (hverbose : s ≠ .flag .verbose) (hplain : ∀ text, s ≠ .value .operand text) :
    s.option ∈ word.map optionName := by
  cases h with
  | @long name f hflag =>
    obtain rfl := List.mem_singleton.mp hs
    have hname := Place.isName_of_flag? hflag
    rw [Setting.option, ← Place.name_of_flag? hflag, List.map_cons,
      optionName_eq hname (by rw [toList_long, List.append_nil]) List.takeWhile_nil]
    exact List.mem_cons_self
  | letters n => exact absurd (List.eq_of_mem_replicate hs) hverbose
  | @attached name slot text hslot =>
    obtain rfl := List.mem_singleton.mp hs
    rw [Setting.option, ← (Place.name_of_slot? hslot).1, List.map_cons,
      optionName_eq (Place.isName_of_slot? hslot) (toList_attached name text) rfl]
    exact List.mem_cons_self
  | @separate name slot text hslot htext =>
    obtain rfl := List.mem_singleton.mp hs
    rw [Setting.option, ← (Place.name_of_slot? hslot).1, List.map_cons,
      optionName_eq (Place.isName_of_slot? hslot)
        (by rw [toList_long, List.append_nil]) List.takeWhile_nil]
    exact List.mem_cons_self
  | plain => exact absurd (List.mem_singleton.mp hs) (hplain _)

/-- What words say about an option stands under the name of that option. -/
theorem Words.mem_optionName (h : Words place args ss) (hs : s ∈ ss)
    (hverbose : s ≠ .flag .verbose) (hplain : ∀ text, s ≠ .value .operand text) :
    s.option ∈ args.map optionName := by
  induction h with
  | nil => cases hs
  | cons hword _ ih =>
    rw [List.map_append, List.mem_append]
    exact (List.mem_append.mp hs).imp (hword.mem_optionName · hverbose hplain) ih

/-! ## The sides of the name -/

/-- In front of the name of a subcommand a word begins with an option. -/
lemma Word.isPlain_eq_false (h : Word .before (arg :: args) ss) : isPlain arg = false := by
  generalize hword : arg :: args = word at h
  cases h with
  | long => exact (List.cons.inj hword).1 ▸ isPlain_long _
  | letters n =>
    exact (List.cons.inj hword).1 ▸ isPlain_eq_false_iff.mpr ⟨'v', List.replicate n 'v',
      String.toList_ofList⟩
  | attached =>
    exact (List.cons.inj hword).1 ▸ isPlain_eq_false_iff.mpr ⟨'-', _, toList_attached _ _⟩
  | separate => exact (List.cons.inj hword).1 ▸ isPlain_long _
  | plain hplace => exact absurd rfl hplace

/-- The arguments are split at the first plain one that is not a value. -/
lemma sidesFrom_append (h : Words .before front ss)
    (hpassed : isOptionPosition passed = true) (hname : isPlain name = true) :
    sidesFrom passed (front ++ name :: back) = (passed ++ front, back) := by
  induction h generalizing passed with
  | nil => rw [List.nil_append, sidesFrom, hpassed, hname, List.append_nil]; rfl
  | @cons word front ss ts hword _ ih =>
    obtain ⟨arg, rfl, hawaits⟩ | ⟨arg, text, rfl, hawaits, htext⟩ := hword.shape
    · have hposition : isOptionPosition (passed ++ [arg]) = true := by
        rw [isOptionPosition_concat, hawaits]; rfl
      rw [List.singleton_append, List.cons_append, sidesFrom, hword.isPlain_eq_false,
        Bool.and_false, if_neg Bool.false_ne_true, ih hposition, List.append_assoc,
        List.singleton_append]
    · -- The value is passed although it is plain, since it does not stand where an
      -- option may stand.
      have hvalue : isOptionPosition (passed ++ [arg]) = false := by
        rw [isOptionPosition_concat, hawaits]; rfl
      have hposition : isOptionPosition (passed ++ [arg] ++ [text]) = true := by
        rw [isOptionPosition_concat, awaitsValue_of_isPlain htext]
        rfl
      rw [List.cons_append, List.cons_append, List.cons_append, List.cons_append,
        List.nil_append, sidesFrom, hword.isPlain_eq_false, Bool.and_false,
        if_neg Bool.false_ne_true, sidesFrom, hvalue, Bool.false_and,
        if_neg Bool.false_ne_true, ih hposition, List.append_assoc, List.append_assoc]
      rfl

/-- The arguments of a line are split into those in front of the subcommand and those
behind it. -/
theorem Line.Spelled.sides {l : Line} (h : l.Spelled args) :
    Words .before (sides args).1 l.front ∧ Words (.after l.kind) (sides args).2 l.back := by
  obtain ⟨front, name, back, rfl, hkind, hfront, hback⟩ := h
  rw [Cli.sides, sidesFrom_append hfront rfl (isPlain_of_named? hkind)]
  exact ⟨hfront, hback⟩

/-- So the letters in the arguments of a line are those of its two sides. -/
theorem Line.Spelled.verbosityOf_eq {l : Line} (h : l.Spelled args) :
    verbosityOf args = (l.front ++ l.back).count (.flag .verbose) := by
  obtain ⟨front, name, back, rfl, hkind, hfront, hback⟩ := h
  have hname : verbosityOf (name :: back) = verbosityOf back := by
    rw [verbosityOf, verbosity_of_isPlain (isPlain_of_named? hkind), Nat.zero_add]
  rw [verbosityOf_append, hname, List.count_append, hfront.verbosityOf_eq,
    hback.verbosityOf_eq]

end

end Workplan.Cli
