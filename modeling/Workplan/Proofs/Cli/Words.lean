import Mathlib.Data.List.TakeWhile
import Mathlib.Tactic.Lemma
import Workplan.Cli.Arguments
import Workplan.Proofs.Document.Rendered

/-!
# The words of a command line

The arguments on one side of the subcommand fall into words: an option, an option with its
value, some letters for verbosity, or a plain argument.  Each word says something, its
settings, and what a side of the subcommand gives is what its settings give one after the
other.  A side is read exactly if it falls into words whose settings can all be taken
(`exists_words`, `Words.exists_readAll`).
-/

namespace Workplan.Cli

/-! ## Words and settings -/

/-- The name of an option without a value. -/
def Flag.name : Flag → String
  | json => "json"
  | quiet => "quiet"
  | verbose => "verbose"
  | otel => "otel"
  | showPlan => "show-plan"
  | printYaml => "print-yaml"
  | help => "help"
  | version => "version"

/-- The name of what takes a value.  A plain argument has none. -/
def Slot.name : Slot → String
  | config => "config"
  | delay => "delay-ms"
  | operand => ""

/-- One thing that a word says: an option, or a value. -/
inductive Setting where
  | flag (f : Flag)
  | value (slot : Slot) (text : String)
deriving DecidableEq

/-- Whether an argument is no option: it begins with no dash, or is a dash and
nothing else. -/
def isPlain (arg : String) : Bool :=
  match arg.toList with
  | '-' :: _ :: _ => false
  | _ => true

/-- A word at a place, with what it says. -/
inductive Word (place : Place) : List String → List Setting → Prop
  | long {name f} : place.flag? name = some f → Word place ["--" ++ name] [.flag f]
  | letters (n : Nat) : Word place [String.ofList ('-' :: List.replicate (n + 1) 'v')]
      (List.replicate (n + 1) (.flag .verbose))
  | attached {name slot} (text : String) : place.slot? name = some slot →
      Word place ["--" ++ name ++ "=" ++ text] [.value slot text]
  | separate {name slot text} : place.slot? name = some slot → isPlain text = true →
      Word place ["--" ++ name, text] [.value slot text]
  | plain {text} : place ≠ .before → isPlain text = true → Word place [text]
      [.value .operand text]

/-- Arguments that fall into words, with what all of them say. -/
inductive Words (place : Place) : List String → List Setting → Prop
  | nil : Words place [] []
  | cons {word args ss ts} : Word place word ss → Words place args ts →
      Words place (word ++ args) (ss ++ ts)

namespace Given

/-- Takes a setting.  A plain argument can be taken once. -/
def add (place : Place) (g : Given) : Setting → Except ArgumentError Given
  | .flag f => g.addFlag f
  | .value .operand text =>
    if g.operand.isSome then .error .unknownArgument else g.addValue place .operand text
  | .value slot text => g.addValue place slot text

/-- Takes settings one after the other. -/
def addAll (place : Place) (g : Given) (ss : List Setting) : Except ArgumentError Given :=
  ss.foldlM (add place) g

variable {place : Place} {g g' : Given} {f : Flag} {slot : Slot} {text : String}

theorem addAll_append (ss ts : List Setting) :
    g.addAll place (ss ++ ts) = g.addAll place ss >>= (·.addAll place ts) :=
  List.foldlM_append

theorem addAll_singleton (s : Setting) : g.addAll place [s] = g.add place s := by
  rw [addAll, List.foldlM_cons]
  cases g.add place s <;> rfl

/-- To check that an option is given only once changes nothing. -/
lemma once_eq_ok {old : Bool} (h : once old g = .ok g') : g' = g := by
  cases old with
  | false => exact (Except.ok.inj h).symm
  | true => cases h

/-- Options without a value leave the plain argument alone. -/
lemma addFlag_operand (h : g.addFlag f = .ok g') : g'.operand = g.operand := by
  cases f with
  | verbose => cases h; rfl
  | help => cases h
  | version => cases h
  | _ => rw [once_eq_ok h]

/-- So do options with a value; only a plain argument is one. -/
lemma addValue_operand (h : g.addValue place slot text = .ok g') :
    g'.operand = if slot = .operand then some text else g.operand := by
  unfold addValue at h
  cases slot with
  | config =>
    dsimp only at h
    split at h
    · cases h
    · split at h
      · cases h
      · cases h; rfl
  | delay =>
    dsimp only at h
    split at h
    · cases h
    · split at h
      · cases h; rfl
      · cases h
  | operand =>
    dsimp only at h
    split at h <;> split at h <;> cases h
    all_goals rfl

lemma add_value (h : slot ≠ .operand) :
    g.add place (.value slot text) = g.addValue place slot text := by
  cases slot with
  | operand => exact absurd rfl h
  | _ => rfl

end Given

/-! ## Spellings -/

section
variable {place : Place} {name arg : String} {f : Flag} {slot : Slot}
  {long short : List Char} {c : Char}

/-- An option is found under its own name only. -/
theorem Place.name_of_flag? (h : place.flag? name = some f) : name = f.name := by
  unfold flag? at h
  split at h
  case h_7 | h_8 =>
    split at h
    · cases h; rfl
    · cases h
  case h_9 => cases h
  all_goals cases h; rfl

/-- So is an option that takes a value, and a plain argument is not found by name. -/
theorem Place.name_of_slot? (h : place.slot? name = some slot) :
    name = slot.name ∧ slot ≠ .operand := by
  unfold slot? at h
  split at h
  · cases h; exact ⟨rfl, nofun⟩
  · split at h
    · cases h; exact ⟨rfl, nofun⟩
    · cases h
  · cases h

/-- A name is not empty and holds no equals sign. -/
structure IsName (name : String) : Prop where
  ne_nil : name.toList ≠ []
  noEquals : '=' ∉ name.toList

lemma Flag.isName (f : Flag) : IsName f.name := by
  cases f <;> exact ⟨by decide, by decide⟩

lemma Slot.isName (h : slot ≠ .operand) : IsName slot.name := by
  cases slot with
  | operand => exact absurd rfl h
  | _ => exact ⟨by decide, by decide⟩

theorem Place.isName_of_flag? (h : place.flag? name = some f) : IsName name :=
  name_of_flag? h ▸ f.isName

theorem Place.isName_of_slot? (h : place.slot? name = some slot) : IsName name := by
  obtain ⟨rfl, hslot⟩ := name_of_slot? h
  exact Slot.isName hslot

theorem Place.flag?_eq_none (h : place.slot? name = some slot) :
    place.flag? name = none := by
  cases hflag : place.flag? name with
  | none => rfl
  | some f =>
    obtain ⟨rfl, hslot⟩ := name_of_slot? h
    have hname := name_of_flag? hflag
    revert hname
    cases slot <;> cases f <;> first | exact absurd rfl hslot | decide

theorem toList_long (name : String) :
    ("--" ++ name).toList = '-' :: '-' :: name.toList := by
  rw [String.toList_append]
  rfl

theorem toList_attached (name text : String) :
    ("--" ++ name ++ "=" ++ text).toList = '-' :: '-' ::
      (name.toList ++ '=' :: text.toList) := by
  rw [String.toList_append, String.toList_append, toList_long, List.append_assoc]
  rfl

/-- The name of an option holds no sign of equality, so that nothing is split off it. -/
theorem splitLong_name (h : IsName name) :
    Reading.splitLong name.toList = (name, none) := by
  have hdrop : name.toList.dropWhile (· != '=') = [] := by
    rw [List.dropWhile_eq_nil_iff]
    exact fun c hc => bne_iff_ne.mpr fun heq => h.noEquals (heq ▸ hc)
  rw [Reading.splitLong, hdrop, String.ofList_toList]

/-- An attached value begins behind the first sign of equality. -/
theorem splitLong_attached (h : IsName name) (text : String) :
    Reading.splitLong (name.toList ++ '=' :: text.toList) = (name, some text) := by
  have hname : ∀ c ∈ name.toList, (c != '=') = true :=
    fun c hc => bne_iff_ne.mpr fun heq => h.noEquals (heq ▸ hc)
  rw [Reading.splitLong, List.dropWhile_append_of_pos hname,
    List.takeWhile_append_of_pos hname]
  have hdrop : List.dropWhile (· != '=') ('=' :: text.toList) = '=' :: text.toList := rfl
  have htake : List.takeWhile (· != '=') ('=' :: text.toList) = [] := rfl
  rw [hdrop, htake, List.append_nil, String.ofList_toList]
  exact congrArg (fun t => (name, some t)) String.ofList_toList

/-- If nothing is split off, the whole is the name. -/
lemma eq_of_splitLong_none (h : Reading.splitLong long = (name, none)) :
    long = name.toList := by
  unfold Reading.splitLong at h
  split at h
  · cases h
  · cases h
    exact (String.toList_ofList).symm

/-- What is split is put together again by a sign of equality. -/
lemma eq_of_splitLong_some {text : String}
    (h : Reading.splitLong long = (name, some text)) :
    long = name.toList ++ '=' :: text.toList := by
  unfold Reading.splitLong at h
  split at h
  · next value hdrop =>
    cases h
    rw [String.toList_ofList, String.toList_ofList, ← hdrop,
      List.takeWhile_append_dropWhile]
  · cases h

/-- An argument that is not plain has a dash and something behind it. -/
theorem isPlain_eq_false_iff :
    isPlain arg = false ↔ ∃ c rest, arg.toList = '-' :: c :: rest := by
  unfold isPlain
  split
  · next c rest heq => exact ⟨fun _ => ⟨c, rest, heq⟩, fun _ => rfl⟩
  · next hne =>
    constructor
    · intro h
      cases h
    · rintro ⟨c, rest, heq⟩
      exact absurd heq (hne c rest)

end

/-! ## Between two words -/

namespace Reading

/-- Reads arguments one after the other. -/
def readAll (place : Place) (r : Reading) (args : List String) :
    Except ArgumentError Reading :=
  args.foldlM (readOne place) r

/-- What has been given, together with a value that has not been looked at. -/
def total (place : Place) (r : Reading) : Except ArgumentError Given :=
  (r.settle place).map (·.given)

/-- No option waits for its value, and none of the arguments was a `--`. -/
structure Open (r : Reading) : Prop where
  plainOnly : r.plainOnly = false
  notAwaiting : r.isAwaiting = false
  operand : r.hasOperand = (r.given.operand.isSome || r.pending.any (·.1 == .operand))

/-- Reading that has looked at all values. -/
def ofGiven (g : Given) : Reading :=
  { given := g, hasOperand := g.operand.isSome }

variable {place : Place} {r r' : Reading} {g : Given} {f : Flag} {slot : Slot}
  {arg name text : String}

theorem ofGiven_open (g : Given) : (ofGiven g).Open :=
  ⟨rfl, rfl, (Bool.or_false _).symm⟩

/-- Behind the subcommand arguments are read one after the other, too. -/
theorem readAfter_eq_readAll (kind : SubcommandKind) (r : Reading) (args : List String) :
    r.readAfter kind args = r.readAll (.after kind) args := by
  induction args generalizing r with
  | nil => rfl
  | cons arg rest ih =>
    rw [readAfter, readAll, List.foldlM_cons]
    exact congrArg (readOne (.after kind) r arg >>= ·) (funext ih)

lemma readAll_append (args args' : List String) :
    r.readAll place (args ++ args') = r.readAll place args >>= (·.readAll place args') :=
  List.foldlM_append

lemma readAll_singleton (arg : String) : r.readAll place [arg] = r.readOne place arg := by
  rw [readAll, List.foldlM_cons]
  cases r.readOne place arg <;> rfl

/-- If no value is awaited, settling takes the value that is held. -/
lemma Open.settle (h : r.Open) : r.settle place = (r.total place).map ofGiven := by
  obtain ⟨given, pending, plainOnly, hasOperand⟩ := r
  obtain ⟨hplain, hawaiting, hoperand⟩ := h
  dsimp only at hplain hoperand
  subst hplain hoperand
  match pending with
  | none => simp [Reading.settle, total, Except.map, ofGiven]
  | some (slot, none) => cases hawaiting
  | some (slot, some text) =>
    -- Looking at the value changes the operand exactly if the value is one, and then
    -- `hasOperand` knows of it already.
    simp only [Reading.settle, total]
    cases hadd : given.addValue place slot text with
    | error e => rfl
    | ok g =>
      have hg := Given.addValue_operand hadd
      simp only [bind, Except.bind, pure, Except.pure, Except.map, ofGiven,
        hg, Option.any_some]
      by_cases hslot : slot = .operand <;> simp [hslot]

/-- An option without a value is taken at once. -/
lemma Open.readFlag (h : r.Open) :
    r.readFlag place f = (r.total place >>= (·.addFlag f)).map ofGiven := by
  rw [Reading.readFlag, h.settle]
  cases r.total place with
  | error e => rfl
  | ok g =>
    simp only [Except.map, bind, Except.bind, ofGiven]
    cases hadd : g.addFlag f with
    | error e => rfl
    | ok g' => simp only [pure, Except.pure, Given.addFlag_operand hadd]

/-- What waits for its value when an option has been read that takes one. -/
def awaiting (g : Given) (slot : Slot) : Reading :=
  { ofGiven g with pending := some (slot, none) }

/-- What waits to be looked at when a value has been read. -/
def holding (g : Given) (slot : Slot) (text : String) : Reading :=
  { ofGiven g with pending := some (slot, some text), hasOperand :=
    g.operand.isSome || slot == .operand }

lemma holding_open (g : Given) (slot : Slot) (text : String) : (holding g slot text).Open :=
  ⟨rfl, rfl, rfl⟩

/-- A held value counts as taken. -/
lemma total_holding (g : Given) (slot : Slot) (text : String) :
    (holding g slot text).total place = g.addValue place slot text := by
  show (g.addValue place slot text >>= fun g' =>
    Except.ok { holding g slot text with given := g', pending := none }).map (·.given) = _
  cases g.addValue place slot text <;> rfl

/-! ## One argument -/

/-- An argument with two dashes is read as an option by its name. -/
lemma readOne_long {long : List Char} (hplain : r.plainOnly = false)
    (harg : arg.toList = '-' :: '-' :: long) (hlong : long ≠ []) :
    r.readOne place arg = r.readLong place (splitLong long).1 (splitLong long).2 := by
  rw [readOne, if_neg (by rw [hplain]; exact Bool.false_ne_true), harg]
  cases long with
  | nil => exact absurd rfl hlong
  | cons c long => rfl

/-- An argument with one dash is read as letters. -/
lemma readOne_short {c : Char} {short : List Char} (hplain : r.plainOnly = false)
    (harg : arg.toList = '-' :: c :: short) (hc : c ≠ '-') :
    r.readOne place arg = r.readShort place (c :: short) := by
  rw [readOne, if_neg (by rw [hplain]; exact Bool.false_ne_true), harg]
  split
  · next heq => exact absurd (List.cons.inj (List.cons.inj heq).2).1 hc
  · next heq => exact absurd (List.cons.inj (List.cons.inj heq).2).1 hc
  · next heq => rw [← (List.cons.inj heq).2]
  · next hshort => exact absurd rfl (hshort c short)

/-- A plain argument is the awaited value, if there is one. -/
theorem readOne_plain (hplainOnly : r.plainOnly = false) (hplain : isPlain text = true) :
    r.readOne place text = match r.pending with
      | some (slot, none) => .ok { r with pending := some (slot, some text) }
      | _ => r.readPlain place text := by
  rw [readOne, if_neg (by rw [hplainOnly]; exact Bool.false_ne_true)]
  unfold isPlain at hplain
  split at hplain
  · cases hplain
  · next hne =>
    split
    · next heq => exact absurd heq (hne _ _)
    · next heq => exact absurd heq (hne _ _)
    · next heq => exact absurd heq (hne _ _)
    · rfl

/-- If a value is awaited, a plain argument is held as that value. -/
lemma readOne_awaiting (hplain : isPlain text = true) (g : Given)
    (hslot : slot ≠ .operand) :
    (awaiting g slot).readOne place text = .ok (holding g slot text) := by
  rw [readOne_plain rfl hplain]
  simp [awaiting, holding, ofGiven, hslot]

/-- If none is awaited, a plain argument is an operand. -/
lemma Open.readOne_plain (h : r.Open) (hplain : isPlain text = true) :
    r.readOne place text = r.readPlain place text := by
  rw [Reading.readOne_plain h.plainOnly hplain]
  split
  · next hpending =>
    have hawaiting := h.notAwaiting
    rw [isAwaiting, hpending] at hawaiting
    cases hawaiting
  · rfl

/-- Behind the subcommand there can be one operand. -/
lemma Open.readPlain (h : r.Open) (hplace : place ≠ .before) :
    r.readPlain place text =
      if r.hasOperand then .error .unknownArgument
      else (r.total place).map (holding · .operand text) := by
  cases place with
  | before => exact absurd rfl hplace
  | after kind =>
    rw [Reading.readPlain, h.settle]
    split
    · rfl
    · cases r.total (.after kind) with
      | error e => rfl
      | ok g => simp [Except.map, bind, Except.bind, pure, Except.pure, holding, ofGiven]

/-! ## One word -/

/-- Whether there is an operand yet can be seen from what has been given. -/
lemma Open.hasOperand_of_total (h : r.Open) (htotal : r.total place = .ok g) :
    r.hasOperand = g.operand.isSome := by
  have hsettle : r.settle place = (r.total place).map ofGiven := h.settle
  rw [htotal] at hsettle
  unfold Reading.settle at hsettle
  split at hsettle
  · cases hsettle; rfl
  · cases hsettle
  · obtain ⟨g', -, heq⟩ := exists_of_bind_eq_ok hsettle
    exact congrArg Reading.hasOperand (Except.ok.inj heq)

/-- The name of an option without a value is read as that option. -/
lemma Open.readLong_flag (h : r.Open) (hflag : place.flag? name = some f) :
    r.readLong place name none = (r.total place >>= (·.addFlag f)).map ofGiven := by
  unfold Reading.readLong
  rw [hflag]
  exact h.readFlag

/-- A value that is attached is taken at once. -/
lemma Open.readLong_attached (h : r.Open) (hslot : place.slot? name = some slot) :
    r.readLong place name (some text) =
      (r.total place >>= (·.addValue place slot text)).map ofGiven := by
  unfold Reading.readLong
  rw [hslot, Place.flag?_eq_none hslot]
  dsimp only
  rw [h.settle]
  cases r.total place with
  | error e => rfl
  | ok g =>
    simp only [Except.map, bind, Except.bind, ofGiven]
    cases hadd : g.addValue place slot text with
    | error e => rfl
    | ok g' =>
      have hoperand := Given.addValue_operand hadd
      rw [if_neg (Place.name_of_slot? hslot).2] at hoperand
      simp only [pure, Except.pure, hoperand]

/-- A value that is not attached is awaited. -/
lemma Open.readLong_separate (h : r.Open) (hslot : place.slot? name = some slot) :
    r.readLong place name none = (r.total place).map (awaiting · slot) := by
  unfold Reading.readLong
  rw [hslot, Place.flag?_eq_none hslot]
  dsimp only
  rw [h.settle]
  cases r.total place <;> rfl

/-- Letters for verbosity count one by one. -/
lemma readShort_letters (n : Nat) (g : Given) :
    (ofGiven g).readShort place (List.replicate n 'v') =
      (g.addAll place (List.replicate n (.flag .verbose))).map ofGiven := by
  induction n generalizing g with
  | zero => rfl
  | succ n ih =>
    rw [List.replicate_succ, List.replicate_succ, readShort, Given.addAll, List.foldlM_cons]
    exact ih _

/-- Letters for verbosity are taken like as many options. -/
lemma Open.readShort_letters (h : r.Open) (n : Nat) :
    r.readShort place (List.replicate (n + 1) 'v') =
      (r.total place >>= (·.addAll place (List.replicate (n + 1) (.flag .verbose)))).map
        ofGiven := by
  rw [List.replicate_succ, readShort]
  show (r.readFlag place .verbose >>= _) = _
  rw [h.readFlag]
  cases r.total place with
  | error e => rfl
  | ok g => exact Reading.readShort_letters n _

end Reading

section
variable {place : Place} {word args : List String} {ss : List Setting} {r r' : Reading}
  {g : Given}

open Reading

/-- Reading a word looks at all earlier values, and at its own settings unless the word
ends with a value. -/
lemma Word.readAll_eq (hword : Word place word ss) (hr : r.Open) :
    r.readAll place word = (r.total place >>= (·.addAll place ss)).map ofGiven ∨
      ∃ slot text, ss = [.value slot text] ∧
        r.readAll place word = if slot = .operand ∧ r.hasOperand = true then
          .error .unknownArgument
          else (r.total place).map (holding · slot text) := by
  cases hword with
  | @long name f hflag =>
    have hname := Place.isName_of_flag? hflag
    left
    simp only [Given.addAll_singleton]
    rw [readAll_singleton, readOne_long hr.plainOnly (toList_long name) hname.ne_nil,
      splitLong_name hname, hr.readLong_flag hflag]
    rfl
  | letters n =>
    have hletters : (String.ofList ('-' :: List.replicate (n + 1) 'v')).toList = '-' ::
        'v' :: List.replicate n 'v' :=
      String.toList_ofList
    left
    rw [readAll_singleton, readOne_short hr.plainOnly hletters (by decide),
      ← List.replicate_succ, hr.readShort_letters]
  | @attached name slot text hslot =>
    have hname := Place.isName_of_slot? hslot
    left
    simp only [Given.addAll_singleton, Given.add_value (Place.name_of_slot? hslot).2]
    rw [readAll_singleton, readOne_long hr.plainOnly (toList_attached name text)
      (by simp), splitLong_attached hname, hr.readLong_attached hslot]
  | @separate name slot text hslot hplain =>
    have hname := Place.isName_of_slot? hslot
    have hoperand := (Place.name_of_slot? hslot).2
    -- The name alone only makes the reader wait; the value is kept, and not looked at yet.
    refine .inr ⟨slot, text, rfl, ?_⟩
    rw [if_neg fun h => hoperand h.1, readAll, List.foldlM_cons,
      readOne_long hr.plainOnly (toList_long name) hname.ne_nil, splitLong_name hname,
      hr.readLong_separate hslot]
    cases r.total place with
    | error e => rfl
    | ok g =>
      show (awaiting g slot).readAll place [text] = _
      rw [readAll_singleton, readOne_awaiting hplain g hoperand]
      rfl
  | @plain text hplace hplain =>
    refine .inr ⟨.operand, text, rfl, ?_⟩
    rw [readAll_singleton, hr.readOne_plain hplain, hr.readPlain hplace]
    simp only [true_and]

/-- Once a word has been read, its settings count among what has been given. -/
lemma Word.total_readAll (hword : Word place word ss) (hr : r.Open)
    (h : r.readAll place word = .ok r') :
    r'.Open ∧ ∀ g, r'.total place = .ok g ↔
      (r.total place >>= (·.addAll place ss)) = .ok g := by
  obtain heq | ⟨slot, text, rfl, heq⟩ := hword.readAll_eq hr
  · obtain ⟨g, hg, rfl⟩ := exists_of_map_eq_ok (heq ▸ h)
    rw [hg]
    exact ⟨ofGiven_open g, fun _ => Iff.rfl⟩
  · rw [heq] at h
    split at h
    · cases h
    · next hoperand =>
      obtain ⟨g, hg, rfl⟩ := exists_of_map_eq_ok h
      refine ⟨holding_open g slot text, fun g' => ?_⟩
      have hadd : g.addAll place [.value slot text] = g.addValue place slot text := by
        rw [Given.addAll_singleton]
        by_cases hslot : slot = .operand
        · subst hslot
          rw [Given.add, if_neg fun h =>
            hoperand ⟨rfl, (hr.hasOperand_of_total hg).trans h⟩]
        · exact Given.add_value hslot
      rw [total_holding, hg, ← hadd]
      rfl

/-- A word can be read where its settings can be taken. -/
lemma Word.exists_readAll (hword : Word place word ss) (hr : r.Open)
    (h : (r.total place >>= (·.addAll place ss)) = .ok g) :
    ∃ r', r.readAll place word = .ok r' := by
  obtain heq | ⟨slot, text, rfl, heq⟩ := hword.readAll_eq hr
  · exact ⟨ofGiven g, by rw [heq, h]; rfl⟩
  · obtain ⟨g₀, hg₀, h⟩ := exists_of_bind_eq_ok h
    refine ⟨holding g₀ slot text, ?_⟩
    rw [heq, if_neg, hg₀]
    · rfl
    · rintro ⟨rfl, hoperand⟩
      rw [hr.hasOperand_of_total hg₀] at hoperand
      rw [Given.addAll_singleton, Given.add, if_pos hoperand] at h
      cases h

/-! ## The first word -/

/-- Only letters for verbosity can stand behind a single dash. -/
lemma readShort_eq_replicate {cs : List Char} (h : r.readShort place cs = .ok r') :
    cs = List.replicate cs.length 'v' := by
  induction cs generalizing r with
  | nil => rfl
  | cons c rest ih =>
    rw [readShort] at h
    split at h
    · next f hflag =>
      obtain ⟨r₁, hr₁, h⟩ := exists_of_bind_eq_ok h
      obtain ⟨s, -, hs⟩ := exists_of_bind_eq_ok hr₁
      obtain ⟨g, hg, -⟩ := exists_of_bind_eq_ok hs
      have hc : c = 'v' := by
        unfold shortFlag? at hflag
        split at hflag <;> cases hflag
        · rfl
        · cases hg
        · cases hg
      rw [List.length_cons, List.replicate_succ, hc, ← ih h]
    · cases h

/-- An option cannot be read in place of a value. -/
lemma readOne_awaiting_ne_ok {slot : Slot} {arg : String} (hdash : arg ≠ "--")
    (hplain : isPlain arg = false) :
    (awaiting g slot).readOne place arg ≠ .ok r' := by
  intro h
  obtain ⟨c, rest, harg⟩ := isPlain_eq_false_iff.mp hplain
  -- Every option first looks at what is pending, and here there is no value to look at.
  have hsettle : (awaiting g slot).settle place = .error .invalidValue := rfl
  by_cases hc : c = '-'
  · subst hc
    have hrest : rest ≠ [] := by
      rintro rfl
      exact hdash (String.toList_inj.mp harg)
    rw [readOne_long rfl harg hrest] at h
    unfold Reading.readLong readFlag at h
    rw [hsettle] at h
    split at h <;> cases h
  · rw [readOne_short rfl harg hc, readShort] at h
    unfold readFlag at h
    rw [hsettle] at h
    split at h <;> cases h

/-- A long option that is read is a word, with the value behind it if it takes one. -/
lemma exists_word_of_long {name : String} {attached : Option String} {r₁ : Reading}
    (hr : r.Open) (hdashes : "--" ∉ args) (hr₁ : r.readLong place name attached = .ok r₁)
    (h : r₁.readAll place args = .ok r') (htotal : r'.total place = .ok g) :
    (∃ f, place.flag? name = some f ∧ attached = none) ∨
      ∃ slot, place.slot? name = some slot ∧
        (attached.isSome = true ∨ ∃ text rest, args = text :: rest ∧
          isPlain text = true) := by
  cases hslot : place.slot? name with
  | none =>
    unfold Reading.readLong at hr₁
    rw [hslot] at hr₁
    cases hflag : place.flag? name with
    | none =>
      rw [hflag] at hr₁
      cases hr₁
    | some f =>
      rw [hflag] at hr₁
      cases attached with
      | none => exact .inl ⟨f, rfl, rfl⟩
      | some text => cases hr₁
  | some slot =>
    refine .inr ⟨slot, rfl, ?_⟩
    cases attached with
    | some text => exact .inl rfl
    | none =>
      rw [hr.readLong_separate hslot] at hr₁
      obtain ⟨g₀, -, rfl⟩ := exists_of_map_eq_ok hr₁
      cases args with
      | nil =>
        -- Nothing follows, so the option waits in vain.
        cases h
        cases htotal
      | cons text rest =>
        rw [readAll, List.foldlM_cons] at h
        obtain ⟨r₂, hr₂, -⟩ := exists_of_bind_eq_ok h
        rw [List.mem_cons, not_or] at hdashes
        cases htext : isPlain text with
        | false => exact absurd hr₂ (readOne_awaiting_ne_ok (Ne.symm hdashes.1) htext)
        | true => exact .inr ⟨text, rest, rfl, htext⟩

/-- What is read begins with a word. -/
lemma exists_word {arg : String} (hr : r.Open) (hdashes : "--" ∉ arg :: args)
    (h : r.readAll place (arg :: args) = .ok r') (htotal : r'.total place = .ok g) :
    ∃ word rest ss, arg :: args = word ++ rest ∧ word ≠ [] ∧ Word place word ss := by
  rw [List.mem_cons, not_or] at hdashes
  rw [readAll, List.foldlM_cons] at h
  obtain ⟨r₁, hr₁, h⟩ := exists_of_bind_eq_ok h
  cases hplain : isPlain arg with
  | true =>
    refine ⟨[arg], args, _, rfl, List.cons_ne_nil _ _, .plain ?_ hplain⟩
    rintro rfl
    rw [hr.readOne_plain hplain, readPlain] at hr₁
    split at hr₁ <;> cases hr₁
  | false =>
    obtain ⟨c, rest, harg⟩ := isPlain_eq_false_iff.mp hplain
    -- Two dashes begin an option by its name, one dash a word of letters.
    by_cases hc : c = '-'
    · subst hc
      have hrest : rest ≠ [] := by
        rintro rfl
        exact hdashes.1 (String.toList_inj.mp harg).symm
      obtain ⟨name, attached, hsplit⟩ : ∃ name attached, splitLong rest = (name,
        attached) := ⟨_, _, rfl⟩
      rw [readOne_long hr.plainOnly harg hrest, hsplit] at hr₁
      have hword := exists_word_of_long hr hdashes.2 hr₁ h htotal
      cases attached with
      | some text =>
        rw [eq_of_splitLong_some hsplit, ← toList_attached, String.toList_inj] at harg
        subst harg
        obtain ⟨f, -, hattached⟩ | ⟨slot, hslot, -⟩ := hword
        · cases hattached
        · exact ⟨_, args, _, rfl, List.cons_ne_nil _ _, .attached _ hslot⟩
      | none =>
        rw [eq_of_splitLong_none hsplit, ← toList_long, String.toList_inj] at harg
        subst harg
        obtain ⟨f, hflag, -⟩ | ⟨slot, hslot, hattached | ⟨text, rest, rfl, htext⟩⟩ := hword
        · exact ⟨_, args, _, rfl, List.cons_ne_nil _ _, .long hflag⟩
        · cases hattached
        · exact ⟨_, rest, _, rfl, List.cons_ne_nil _ _, .separate hslot htext⟩
    · rw [readOne_short hr.plainOnly harg hc] at hr₁
      have hletters := readShort_eq_replicate hr₁
      rw [hletters, List.length_cons] at harg
      obtain rfl : arg = String.ofList ('-' :: List.replicate (rest.length + 1) 'v') := by
        rw [← harg, String.ofList_toList]
      exact ⟨_, args, _, rfl, List.cons_ne_nil _ _, .letters _⟩

/-! ## All words -/

/-- Words may be put behind words, and then say what both say. -/
theorem Words.append {args args' : List String} {ss ts : List Setting}
    (h : Words place args ss) (h' : Words place args' ts) :
    Words place (args ++ args') (ss ++ ts) := by
  induction h with
  | nil => exact h'
  | cons hword _ ih =>
    rw [List.append_assoc, List.append_assoc]
    exact .cons hword ih

/-- What falls into words can be read if all settings can be taken. -/
theorem Words.exists_readAll (hwords : Words place args ss) (hr : r.Open)
    (h : (r.total place >>= (·.addAll place ss)) = .ok g) :
    ∃ r', r.readAll place args = .ok r' ∧ r'.Open ∧ r'.total place = .ok g := by
  induction hwords generalizing r with
  | nil =>
    obtain ⟨g₀, hg₀, h⟩ := exists_of_bind_eq_ok h
    cases h
    exact ⟨r, rfl, hr, hg₀⟩
  | @cons word args ss ts hword _ ih =>
    obtain ⟨g₀, hg₀, h⟩ := exists_of_bind_eq_ok h
    rw [Given.addAll_append] at h
    obtain ⟨g₁, hg₁, h⟩ := exists_of_bind_eq_ok h
    have hss : (r.total place >>= (·.addAll place ss)) = .ok g₁ := by
      rw [hg₀]
      exact hg₁
    obtain ⟨r₁, hr₁⟩ := hword.exists_readAll hr hss
    obtain ⟨hopen, htotal⟩ := hword.total_readAll hr hr₁
    obtain ⟨r', hr', hg⟩ := ih hopen (by rw [(htotal g₁).mpr hss]; exact h)
    exact ⟨r', by rw [readAll_append, hr₁]; exact hr', hg⟩

/-- What is read falls into words whose settings have all been taken. -/
theorem exists_words (hr : r.Open) (hdashes : "--" ∉ args)
    (h : r.readAll place args = .ok r') (htotal : r'.total place = .ok g) :
    ∃ ss, Words place args ss ∧ (r.total place >>= (·.addAll place ss)) = .ok g := by
  -- Words are not empty, so there are fewer arguments behind the first one.
  induction hlength : args.length using Nat.strong_induction_on generalizing r args with
  | _ n ih =>
    cases args with
    | nil =>
      cases h
      exact ⟨[], .nil, by rw [htotal]; rfl⟩
    | cons arg args =>
      obtain ⟨word, rest, ss, hargs, hne, hword⟩ := exists_word hr hdashes h htotal
      rw [hargs, readAll_append] at h
      obtain ⟨r₁, hr₁, h⟩ := exists_of_bind_eq_ok h
      obtain ⟨hopen, hss⟩ := hword.total_readAll hr hr₁
      have hshorter : rest.length < n := by
        have hpos := List.length_pos_iff.mpr hne
        rw [← hlength, hargs, List.length_append]
        omega
      rw [hargs, List.mem_append, not_or] at hdashes
      obtain ⟨ts, hwords, hg⟩ := ih rest.length hshorter hopen hdashes.2 h rfl
      obtain ⟨g₁, hg₁, hg⟩ := exists_of_bind_eq_ok hg
      obtain ⟨g₀, hg₀, hg₁⟩ := exists_of_bind_eq_ok ((hss g₁).mp hg₁)
      refine ⟨ss ++ ts, hargs ▸ .cons hword hwords, ?_⟩
      rw [hg₀]
      show g₀.addAll place (ss ++ ts) = _
      rw [Given.addAll_append, hg₁]
      exact hg

end

end Workplan.Cli
