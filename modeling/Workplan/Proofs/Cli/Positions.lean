import Mathlib.Tactic.Lemma
import Workplan.Proofs.Cli.Lines

/-!
# Positions of options

An option may stand at any place of a command line except between another option and its
value.  A line stays a line when words are taken out of it or put in at such a place
(`Line.Spelled.insert`, `Line.Spelled.remove`).
-/

namespace Workplan.Cli

/-! ## Positions -/

/-- Whether an option takes the argument behind it as its value. -/
def awaitsValue (arg : String) : Bool :=
  arg == "--config" || arg == "--delay-ms"

/-- Whether an option may stand behind some arguments. -/
def isOptionPosition (front : List String) : Bool :=
  !front.getLast?.any awaitsValue

section
variable {place : Place} {word args front back xs ys : List String}
  {arg name text : String} {ss ts : List Setting} {slot : Slot}

/-- Whether an option may come next depends on the last argument only. -/
theorem isOptionPosition_concat (front : List String) (arg : String) :
    isOptionPosition (front ++ [arg]) = !awaitsValue arg := by
  rw [isOptionPosition, List.getLast?_concat, Option.any_some]

lemma isOptionPosition_singleton (arg : String) :
    isOptionPosition [arg] = !awaitsValue arg :=
  isOptionPosition_concat [] arg

/-- Behind an argument that awaits no value, only what follows it decides. -/
lemma isOptionPosition_append_cons (h : awaitsValue arg = false) (xs ys : List String) :
    isOptionPosition (xs ++ arg :: ys) = isOptionPosition ys := by
  cases ys with
  | nil =>
    rw [isOptionPosition_concat, h]
    rfl
  | cons y ys =>
    rw [isOptionPosition, isOptionPosition, List.getLast?_append, List.getLast?_cons_cons,
      List.getLast?_cons, Option.some_or]

theorem awaitsValue_of_isPlain (h : isPlain arg = true) : awaitsValue arg = false := by
  rw [awaitsValue, Bool.or_eq_false_iff, beq_eq_false_iff_ne, beq_eq_false_iff_ne]
  constructor <;> rintro rfl <;> exact absurd h (by decide)

lemma awaitsValue_long (h : place.slot? name = some slot) :
    awaitsValue ("--" ++ name) = true := by
  obtain ⟨rfl, hslot⟩ := Place.name_of_slot? h
  cases slot with
  | operand => exact absurd rfl hslot
  | _ => decide

theorem isPlain_long (name : String) : isPlain ("--" ++ name) = false :=
  isPlain_eq_false_iff.mpr ⟨'-', name.toList, toList_long name⟩

/-- A word is one argument that awaits no value, or an option with its value. -/
theorem Word.shape (h : Word place word ss) :
    (∃ arg, word = [arg] ∧ awaitsValue arg = false) ∨
      ∃ arg text, word = [arg, text] ∧ awaitsValue arg = true ∧ isPlain text = true := by
  -- Only two arguments await a value, and neither begins with one dash or holds an
  -- equals sign.
  have awaits {arg : String} (h : awaitsValue arg = true) : arg = "--config" ∨
      arg = "--delay-ms" := by
    simpa [awaitsValue] using h
  cases h with
  | @long name f hflag =>
    obtain rfl := Place.name_of_flag? hflag
    exact .inl ⟨_, rfl, by cases f <;> decide⟩
  | letters n =>
    refine .inl ⟨_, rfl, Bool.eq_false_iff.mpr fun h => ?_⟩
    rcases awaits h with h | h <;> have htoList := congrArg String.toList h <;>
      rw [String.toList_ofList, List.replicate_succ] at htoList <;>
        exact absurd htoList (by simp)
  | @attached name slot text hslot =>
    refine .inl ⟨_, rfl, Bool.eq_false_iff.mpr fun h => ?_⟩
    have hmem : '=' ∈ ("--" ++ name ++ "=" ++ text).toList := by
      rw [toList_attached]
      simp
    rcases awaits h with h | h <;> rw [h] at hmem <;> exact absurd hmem (by decide)
  | separate hslot hplain => exact .inr ⟨_, _, rfl, awaitsValue_long hslot, hplain⟩
  | plain _ hplain => exact .inl ⟨_, rfl, awaitsValue_of_isPlain hplain⟩

/-- Behind a word an option may come exactly if it may come behind the
arguments after it. -/
lemma isOptionPosition_word (hword : Word place word ss) (xs : List String) :
    isOptionPosition (word ++ xs) = isOptionPosition xs := by
  obtain ⟨arg, rfl, hawaits⟩ | ⟨arg, text, rfl, -, hplain⟩ := hword.shape
  · exact isOptionPosition_append_cons hawaits [] xs
  · exact isOptionPosition_append_cons (awaitsValue_of_isPlain hplain) [arg] xs

/-- A cut behind some arguments is behind the first word, or between an option and its
value. -/
lemma Word.cut (hword : Word place word ss) (hne : xs ≠ []) (h : xs ++ ys = word ++ args) :
    (∃ xs', xs = word ++ xs' ∧ args = xs' ++ ys) ∨
      ∃ arg text, xs = [arg] ∧ ys = text :: args ∧ awaitsValue arg = true ∧
        isPlain text = true := by
  obtain ⟨x, xs, rfl⟩ := List.exists_cons_of_ne_nil hne
  obtain ⟨arg, rfl, -⟩ | ⟨arg, text, rfl, hawaits, hplain⟩ := hword.shape
  · obtain ⟨rfl, hrest⟩ := List.cons.inj h
    exact .inl ⟨xs, rfl, hrest.symm⟩
  · obtain ⟨rfl, hrest⟩ := List.cons.inj h
    cases xs with
    | nil => exact .inr ⟨x, text, rfl, hrest, hawaits, hplain⟩
    | cons x' xs =>
      obtain ⟨rfl, hrest'⟩ := List.cons.inj hrest
      exact .inl ⟨xs, rfl, hrest'.symm⟩

/-- At an option position one word ends and another one begins. -/
lemma Words.split (h : Words place (xs ++ ys) ss) (hposition : isOptionPosition xs = true) :
    ∃ ss₁ ss₂, ss = ss₁ ++ ss₂ ∧ Words place xs ss₁ ∧ Words place ys ss₂ := by
  generalize hargs : xs ++ ys = args at h
  -- The position lies in front of a word, behind it, or inside it.
  induction h generalizing xs with
  | nil =>
    obtain ⟨rfl, rfl⟩ := List.append_eq_nil_iff.mp hargs
    exact ⟨[], [], rfl, .nil, .nil⟩
  | @cons word args ss ts hword hwords ih =>
    by_cases hne : xs = []
    · subst hne
      rw [List.nil_append] at hargs
      exact ⟨[], ss ++ ts, rfl, .nil, hargs ▸ .cons hword hwords⟩
    · obtain ⟨xs', rfl, hrest⟩ | ⟨arg, text, rfl, -, hawaits, -⟩ := hword.cut hne hargs
      · rw [isOptionPosition_word hword] at hposition
        obtain ⟨ss₁, ss₂, rfl, hxs, hys⟩ := ih hposition hrest.symm
        exact ⟨ss ++ ss₁, ss₂, (List.append_assoc ..).symm, .cons hword hxs, hys⟩
      · -- Between an option and its value there is no option position.
        rw [isOptionPosition_singleton, hawaits] at hposition
        cases hposition

/-- An option stands at an option position. -/
lemma Words.isOptionPosition (h : Words place (xs ++ arg :: ys) ss)
    (harg : isPlain arg = false) :
    isOptionPosition xs = true := by
  generalize hargs : xs ++ arg :: ys = args at h
  induction h generalizing xs with
  | nil => cases (List.append_eq_nil_iff.mp hargs).2
  | @cons word args ss ts hword hwords ih =>
    by_cases hne : xs = []
    · subst hne; rfl
    · obtain ⟨xs', rfl, hrest⟩ | ⟨x, text, -, heq, -, hplain⟩ := hword.cut hne hargs
      · rw [isOptionPosition_word hword]
        exact ih hrest.symm
      · rw [(List.cons.inj heq).1, hplain] at harg
        cases harg

end

/-! ## Words by their first argument -/

/-- What a word says that begins with an argument, or what the word still needs a value
for. -/
def firstSays (place : Place) (arg : String) : List Setting ⊕ Option Slot :=
  match isPlain arg, arg.toList with
  | true, _ => .inl [.value .operand arg]
  | false, '-' :: '-' :: long =>
    match Reading.splitLong long with
    | (name, some text) => .inl ((place.slot? name).toList.map (.value · text))
    | (name, none) =>
      ((place.flag? name).map fun f => Sum.inl [.flag f]).getD (.inr (place.slot? name))
  | false, letters => .inl (List.replicate (letters.length - 1) (.flag .verbose))

section
variable {place : Place} {word word' xs ys : List String} {ss ss' : List Setting}

/-- The first argument of a word tells what the word says, or which value follows. -/
lemma Word.firstSays (h : Word place word ss) :
    (∃ arg, word = [arg] ∧ firstSays place arg = .inl ss) ∨
      ∃ arg slot text, word = [arg, text] ∧ ss = [.value slot text] ∧
        firstSays place arg = .inr (some slot) := by
  cases h with
  | @long name f hflag =>
    refine .inl ⟨_, rfl, ?_⟩
    simp only [Cli.firstSays, isPlain_long, toList_long,
      splitLong_name (Place.isName_of_flag? hflag), hflag, Option.map_some,
      Option.getD_some]
  | letters n =>
    refine .inl ⟨_, rfl, ?_⟩
    have hplain : isPlain (String.ofList ('-' :: List.replicate (n + 1) 'v')) = false :=
      isPlain_eq_false_iff.mpr ⟨'v', List.replicate n 'v', String.toList_ofList⟩
    rw [Cli.firstSays, hplain, String.toList_ofList]
    simp [List.replicate_succ]
  | @attached name slot text hslot =>
    refine .inl ⟨_, rfl, ?_⟩
    have hplain : isPlain ("--" ++ name ++ "=" ++ text) = false :=
      isPlain_eq_false_iff.mpr ⟨'-', _, toList_attached name text⟩
    simp only [Cli.firstSays, hplain, toList_attached,
      splitLong_attached (Place.isName_of_slot? hslot), hslot, Option.toList_some,
      List.map_cons, List.map_nil]
  | @separate name slot text hslot hplain =>
    refine .inr ⟨_, slot, text, rfl, rfl, ?_⟩
    simp only [Cli.firstSays, isPlain_long, toList_long,
      splitLong_name (Place.isName_of_slot? hslot), Place.flag?_eq_none hslot, hslot,
      Option.map_none, Option.getD_none]
  -- What a plain argument says is the same at every place where it may stand.
  | plain _ hplain =>
    refine .inl ⟨_, rfl, ?_⟩
    rw [Cli.firstSays, hplain]

/-- Where a word begins there begins no other one. -/
lemma Word.unique (h : Word place word ss) (h' : Word place word' ss')
    (heq : word ++ xs = word' ++ ys) :
    word = word' ∧ ss = ss' := by
  obtain ⟨arg, rfl, hfirst⟩ | ⟨arg, slot, text, rfl, rfl, hfirst⟩ := h.firstSays <;>
    obtain ⟨arg', rfl, hfirst'⟩ | ⟨arg', slot', text', rfl, rfl, hfirst'⟩ :=
      h'.firstSays <;>
    obtain ⟨rfl, hrest⟩ := List.cons.inj heq <;> rw [hfirst] at hfirst'
  · exact ⟨rfl, Sum.inl.inj hfirst'⟩
  · cases hfirst'
  · cases hfirst'
  · obtain rfl := Option.some.inj (Sum.inr.inj hfirst')
    obtain ⟨rfl, -⟩ := List.cons.inj hrest
    exact ⟨rfl, rfl⟩

end

/-! ## Options of the program as a whole -/

/-- The options of the program as a whole that may be given once, as they are spelled. -/
inductive SingleOption : List String → Prop
  | json : SingleOption ["--json"]
  | quiet : SingleOption ["--quiet"]
  | otel : SingleOption ["--otel"]
  | config (path : String) : SingleOption ["--config", path]
  | configAttached (path : String) : SingleOption ["--config=" ++ path]

/-- Whether a setting concerns the program as a whole and may be given once. -/
def Setting.isSingle : Setting → Bool
  | .flag .json => true
  | .flag .quiet => true
  | .flag .otel => true
  | .value .config _ => true
  | _ => false

/-- Whether a setting concerns the program as a whole. -/
def Setting.isShared (s : Setting) : Bool :=
  s.isSingle || s == .flag .verbose

namespace SingleOption

variable {place : Place} {u word args more xs ys : List String} {ss : List Setting}

/-- An option of the program as a whole begins with an argument that is not plain. -/
lemma head (h : SingleOption u) : ∃ arg rest, u = arg :: rest ∧ isPlain arg = false := by
  cases h with
  | json => exact ⟨_, _, rfl, by decide⟩
  | quiet => exact ⟨_, _, rfl, by decide⟩
  | otel => exact ⟨_, _, rfl, by decide⟩
  | config path => exact ⟨_, _, rfl, by decide⟩
  | configAttached path =>
    refine ⟨_, _, rfl, isPlain_eq_false_iff.mpr ⟨'-', "config=".toList ++ path.toList, ?_⟩⟩
    rw [String.toList_append]
    rfl

/-- An option that begins a side is a word on either side. -/
lemma exists_setting (h : SingleOption u) (hword : Word place word ss)
    (heq : word ++ xs = u ++ ys) :
    ∃ s : Setting, s.isSingle = true ∧ ∀ place', Word place' u [s] := by
  cases h with
  | json =>
    have hname : "--json" = "--" ++ "json" := by decide
    exact ⟨.flag .json, rfl, fun _ => hname ▸ .long rfl⟩
  | quiet =>
    have hname : "--quiet" = "--" ++ "quiet" := by decide
    exact ⟨.flag .quiet, rfl, fun _ => hname ▸ .long rfl⟩
  | otel =>
    have hname : "--otel" = "--" ++ "otel" := by decide
    exact ⟨.flag .otel, rfl, fun _ => hname ▸ .long rfl⟩
  | config path =>
    -- The path is plain, since it is the value of a word of the line.
    have hpath : isPlain path = true := by
      obtain ⟨arg, rfl, hawaits⟩ | ⟨arg, text, rfl, -, hplain⟩ := hword.shape
      · rw [(List.cons.inj heq).1] at hawaits
        exact absurd hawaits (by decide)
      · exact (List.cons.inj (List.cons.inj heq).2).1 ▸ hplain
    have hname : "--config" = "--" ++ "config" := by decide
    exact ⟨.value .config path, rfl, fun _ => hname ▸ .separate rfl hpath⟩
  | configAttached path =>
    have hname : "--config=" = "--" ++ "config" ++ "=" := by decide
    exact ⟨.value .config path, rfl, fun _ => hname ▸ .attached path rfl⟩

/-- An option that begins a side is its first word. -/
lemma firstWord (h : SingleOption u) (hwords : Words place args ss) (hne : args ≠ [])
    (heq : args ++ more = u ++ ys) :
    ∃ s args' ss', s.isSingle = true ∧ (∀ place', Word place' u [s]) ∧ args = u ++ args' ∧
      ss = s :: ss' ∧
      Words place args' ss' := by
  cases hwords with
  | nil => exact absurd rfl hne
  | @cons word args ss ts hword hwords =>
    rw [List.append_assoc] at heq
    obtain ⟨s, hs, hu⟩ := h.exists_setting hword heq
    obtain ⟨rfl, rfl⟩ := hword.unique (hu place) heq
    exact ⟨s, args, ts, hs, hu, rfl, rfl, hwords⟩

end SingleOption

/-! ## Words that stand in a line -/

namespace Line

variable {l : Line} {xs ys u : List String} {ss : List Setting} {arg : String}

/-- Words may be put in front of a line, and then belong to its front. -/
lemma Spelled.prepend (hwords : Words .before xs ss) (h : l.Spelled ys) :
    Spelled ⟨ss ++ l.front, l.kind, l.back⟩ (xs ++ ys) := by
  obtain ⟨front, name, back, rfl, hkind, hfront, hback⟩ := h
  exact ⟨xs ++ front, name, back, (List.append_assoc ..).symm, hkind,
    hwords.append hfront, hback⟩

lemma Spelled.append (h : l.Spelled xs) (hwords : Words (.after l.kind) ys ss) :
    Spelled ⟨l.front, l.kind, l.back ++ ss⟩ (xs ++ ys) := by
  obtain ⟨front, name, back, rfl, hkind, hfront, hback⟩ := h
  exact ⟨front, name, back ++ ys, List.append_assoc .., hkind, hfront, hback.append hwords⟩

/-- At an option position in front of the name one word ends and another one begins, or
the name stands there; at one behind the name likewise, or the line ends there. -/
lemma Spelled.split (h : l.Spelled (xs ++ ys)) (hposition : isOptionPosition xs = true) :
    (∃ ss₁ ss₂, l.front = ss₁ ++ ss₂ ∧ Words .before xs ss₁ ∧
      Spelled ⟨ss₂, l.kind, l.back⟩ ys) ∨
      ∃ ts₁ ts₂, l.back = ts₁ ++ ts₂ ∧ Spelled ⟨l.front, l.kind, ts₁⟩ xs ∧
        Words (.after l.kind) ys ts₂ := by
  obtain ⟨front, name, back, hargs, hkind, hfront, hback⟩ := h
  -- Either the name stands behind the position, or it stands in front of it.
  rcases List.append_eq_append_iff.mp hargs with ⟨front', rfl, rfl⟩ | ⟨rest, rfl, hrest⟩
  · obtain ⟨ss₁, ss₂, hss, hxs, hys⟩ := hfront.split hposition
    exact .inl ⟨ss₁, ss₂, hss, hxs, front', name, back, rfl, hkind, hys, hback⟩
  · cases rest with
    | nil =>
      obtain rfl : ys = name :: back := hrest.symm
      rw [List.append_nil]
      exact .inl ⟨l.front, [], (List.append_nil _).symm, hfront, [], name, back, rfl,
        hkind, .nil, hback⟩
    | cons name' back' =>
      obtain ⟨rfl, rfl⟩ := List.cons.inj hrest
      rw [isOptionPosition_append_cons
        (awaitsValue_of_isPlain (isPlain_of_named? hkind))] at hposition
      obtain ⟨ts₁, ts₂, hts, hxs, hys⟩ := hback.split hposition
      exact .inr ⟨ts₁, ts₂, hts, ⟨front, name, back', rfl, hkind, hfront, hxs⟩, hys⟩

/-- An option stands at an option position. -/
lemma Spelled.isOptionPosition (h : l.Spelled (xs ++ arg :: ys))
    (harg : isPlain arg = false) :
    isOptionPosition xs = true := by
  obtain ⟨front, name, back, hargs, hkind, hfront, hback⟩ := h
  -- The option is no name, so that it stands on one of the two sides.
  rcases List.append_eq_append_iff.mp hargs with ⟨front', rfl, hrest⟩ | ⟨rest, rfl, hrest⟩
  · cases front' with
    | nil =>
      rw [(List.cons.inj hrest).1, isPlain_of_named? hkind] at harg
      cases harg
    | cons arg' front' =>
      rw [← (List.cons.inj hrest).1] at hfront
      exact hfront.isOptionPosition harg
  · cases rest with
    | nil =>
      rw [← (List.cons.inj hrest).1, isPlain_of_named? hkind] at harg
      cases harg
    | cons name' back' =>
      obtain ⟨rfl, rfl⟩ := List.cons.inj hrest
      rw [isOptionPosition_append_cons (awaitsValue_of_isPlain (isPlain_of_named? hkind))]
      exact hback.isOptionPosition harg

/-- A line with further settings, all of them on one side of the name. -/
inductive Extends (ss : List Setting) (l : Line) : Line → Prop
  | front {front} : front.Perm (ss ++ l.front) → Extends ss l ⟨front, l.kind, l.back⟩
  | back {back} : back.Perm (ss ++ l.back) → Extends ss l ⟨l.front, l.kind, back⟩

/-- Words that may stand on either side may stand at any option position. -/
theorem Spelled.insert (h : l.Spelled (xs ++ ys))
    (hposition : Cli.isOptionPosition xs = true) (hwords : ∀ place, Words place u ss) :
    ∃ l', l'.Spelled (xs ++ u ++ ys) ∧ Extends ss l l' := by
  obtain ⟨ss₁, ss₂, hss, hxs, hys⟩ | ⟨ts₁, ts₂, hts, hxs, hys⟩ := h.split hposition
  · refine ⟨_, hys.prepend (hxs.append (hwords .before)), .front ?_⟩
    rw [hss, List.append_assoc]
    exact List.perm_append_comm_assoc _ _ _
  · have hspelled := hxs.append ((hwords _).append hys)
    rw [← List.append_assoc xs] at hspelled
    refine ⟨_, hspelled, .back ?_⟩
    rw [hts]
    exact List.perm_append_comm_assoc _ _ _

/-- An option can be taken out of a line. -/
theorem Spelled.remove (h : l.Spelled (xs ++ u ++ ys)) (hu : SingleOption u) :
    ∃ s l₀, s.isSingle = true ∧ (∀ place, Word place u [s]) ∧ l₀.Spelled (xs ++ ys) ∧
      Extends [s] l₀ l := by
  obtain ⟨arg, rest, rfl, harg⟩ := hu.head
  rw [List.append_assoc] at h
  obtain ⟨ss₁, ss₂, hss, hxs, front, name, back, heq, hkind, hfront, hback⟩ |
    ⟨ts₁, ts₂, hts, hxs, hys⟩ :=
    h.split (h.isOptionPosition harg)
  -- In front of the name, the option is the first word of what is left there.
  · have hne : front ≠ [] := by
      rintro rfl
      rw [(List.cons.inj heq).1, isPlain_of_named? hkind] at harg
      cases harg
    obtain ⟨s, front', ss', hs, hword, rfl, rfl, hfront'⟩ :=
      hu.firstWord hfront hne heq.symm
    rw [List.append_assoc] at heq
    refine ⟨s, ⟨ss₁ ++ ss', l.kind, l.back⟩, hs, hword, ?_, .front ?_⟩
    · exact Spelled.prepend (l := ⟨ss', l.kind, l.back⟩) hxs
        ⟨front', name, back, List.append_cancel_left heq, hkind, hfront', hback⟩
    · rw [hss]
      exact List.perm_middle
  · have hne : arg :: rest ++ ys ≠ [] := List.cons_ne_nil _ _
    obtain ⟨s, ys', ts', hs, hword, heq, rfl, hys'⟩ :=
      hu.firstWord hys hne (List.append_nil _)
    obtain rfl := List.append_cancel_left heq
    refine ⟨s, ⟨l.front, l.kind, ts₁ ++ ts'⟩, hs, hword, hxs.append hys', .back ?_⟩
    rw [hts]
    exact List.perm_middle

end Line

end Workplan.Cli
