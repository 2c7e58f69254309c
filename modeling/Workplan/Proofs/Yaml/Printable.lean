import Mathlib.Tactic.Lemma
import Workplan.Proofs.Yaml.Forms

/-!
# Printable characters

A printed value holds printable characters only: a text with another character is written
in double quotes, where such a character is escaped.  So a printed text is one that may be
scanned at all, and it does not start with a byte order mark.
-/

namespace Workplan.Yaml

/-- What may be printed as it is may be scanned. -/
theorem isAllowed_of_isPrintable {ch : Char} (h : isPrintable ch = true) :
    isAllowed ch = true := by
  unfold isPrintable at h
  unfold isAllowed
  simp only [Bool.or_eq_true, Bool.and_eq_true, beq_iff_eq, decide_eq_true_iff] at h ⊢
  omega

/-! ## Scalars -/

lemma all_isPrintable_blanks (n : Nat) : (blanks n).all isPrintable = true := by
  rw [List.all_eq_true]
  intro ch hch
  rw [List.eq_of_mem_replicate hch]
  decide

/-- A character is escaped unless it is printable, and an escape consists of letters and
digits. -/
lemma all_isPrintable_escapeChar (ch : Char) : (escapeChar ch).all isPrintable = true := by
  have hnumbered : ∀ sign width, isPrintable sign = true →
      ('\\' :: sign :: hexUpper width ch.toNat).all isPrintable = true := by
    intro sign width hsign
    have hdigits : (hexUpper width ch.toNat).all isPrintable = true :=
      List.all_eq_true.mpr fun x hx => (of_mem_hexUpper hx).1
    rw [List.all_cons, List.all_cons, hsign, hdigits]
    rfl
  unfold escapeChar
  split
  -- The characters with an escape of their own are closed terms; the rest are shown as
  -- they are or numbered.
  all_goals first | decide | skip
  split
  · next hch =>
    rw [List.all_cons, hch]
    rfl
  · split
    · exact hnumbered 'x' 2 (by decide)
    · split
      · exact hnumbered 'u' 4 (by decide)
      · exact hnumbered 'U' 8 (by decide)

/-- In double quotes any text is printable. -/
lemma all_isPrintable_doubleQuoted (cs : List Char) :
    (doubleQuoted cs).all isPrintable = true := by
  have hbody : (cs.flatMap escapeChar).all isPrintable = true := by
    rw [List.all_flatMap, List.all_eq_true]
    exact fun ch _ => all_isPrintable_escapeChar ch
  rw [doubleQuoted, List.all_cons, List.all_append, hbody]
  decide

/-- Indentation adds only blanks to what is printable. -/
lemma all_isPrintable_indented {encode : Char → List Char} {cs : List Char}
    (indent : Nat) (broken : Bool)
    (hencode : ∀ ch, isPrintable ch = true → (encode ch).all isPrintable = true)
    (hcs : cs.all isPrintable = true) :
    (indented indent encode broken cs).all isPrintable = true := by
  induction cs generalizing broken with
  | nil => rfl
  | cons ch cs ih =>
    rw [List.all_cons, Bool.and_eq_true] at hcs
    unfold indented
    by_cases hbreak : isBreak ch = true
    · rw [if_pos hbreak, List.all_cons, hcs.1, ih true hcs.2]
      rfl
    · have hblanks : (if broken then blanks indent else []).all isPrintable = true := by
        cases broken with
        | false => rfl
        | true => exact all_isPrintable_blanks indent
      rw [if_neg hbreak, List.all_append, List.all_append, hblanks, hencode ch hcs.1,
        ih false hcs.2]
      rfl

/-- Single quotes are used for printable texts only. -/
lemma all_isPrintable_singleQuoted {cs : List Char} (h : allowsSingle cs = true)
    (indent : Nat) :
    (singleQuoted indent cs).all isPrintable = true := by
  have hcs : cs.all isPrintable = true := by
    unfold allowsSingle at h
    simp only [Bool.and_eq_true] at h
    exact h.1.1
  have hquote : ∀ ch, isPrintable ch = true → (singleChar ch).all isPrintable = true := by
    intro ch hch
    unfold singleChar
    split
    · decide
    · rw [List.all_cons, hch]
      rfl
  have hbody : (indented indent singleChar false cs).all isPrintable = true :=
    all_isPrintable_indented indent false hquote hcs
  have hending : (if cs.getLast?.any isBreak then blanks indent else []).all isPrintable =
      true := by
    split
    · exact all_isPrintable_blanks indent
    · rfl
  show ('\'' :: (indented indent singleChar false cs ++ _ ++ ['\''])).all isPrintable = true
  rw [List.all_cons, List.all_append, List.all_append, hbody, hending]
  decide

lemma all_isPrintable_blockOfLines {cs : List Char} (h : allowsBlock cs = true)
    (indent : Nat) :
    (blockOfLines indent cs).all isPrintable = true := by
  have hcs : cs.all isPrintable = true := by
    unfold allowsBlock at h
    simp only [Bool.and_eq_true] at h
    exact h.1.1
  have hhint : (blockHint cs).all isPrintable = true := by
    unfold blockHint
    split <;> decide
  have hsign : (chompSign cs).all isPrintable = true := by
    unfold chompSign
    repeat' split
    all_goals decide
  have hsame : ∀ ch, isPrintable ch = true → [ch].all isPrintable = true := by
    intro ch hch
    rw [List.all_cons, hch]
    rfl
  have hbody := all_isPrintable_indented indent true hsame hcs
  have hending : (if cs.getLast?.any isBreak then [] else ['\n']).all isPrintable =
      true := by
    split <;> decide
  unfold blockOfLines
  simp only [List.all_cons, List.all_append, hhint, hsign, hbody, hending]
  decide

/-- What a form promises about a text in it. -/
lemma all_isPrintable_of_plain {s : String} (h : formOf s = .plain) :
    s.toList.all isPrintable = true := by
  have hallows := (of_formOf_plain h).2
  unfold allowsPlain at hallows
  simp only [Bool.and_eq_true] at hallows
  exact hallows.1.1.1.1

/-- A text is printed as printable characters, in whichever form it is written. -/
lemma all_isPrintable_textLines (indent : Nat) (s : String) :
    (textLines indent s).all isPrintable = true := by
  unfold textLines
  dsimp only
  cases hform : formOf s with
  | plain =>
    rw [List.all_append, all_isPrintable_of_plain hform]
    decide
  | single =>
    rw [List.all_append, all_isPrintable_singleQuoted (of_formOf_single hform).1]
    decide
  | double =>
    rw [List.all_append, all_isPrintable_doubleQuoted]
    decide
  | block => exact all_isPrintable_blockOfLines (of_formOf_block hform).1 indent

lemma all_isPrintable_shortKey (name : String) :
    (shortKey name).all isPrintable = true := by
  rcases shortKey_cases name with ⟨hform, hkey⟩ | ⟨hform, hkey⟩ | ⟨-, hkey⟩
  · rw [hkey]
    exact all_isPrintable_of_plain hform
  · rw [hkey]
    exact all_isPrintable_singleQuoted (of_formOf_single hform).1 0
  · rw [hkey]
    exact all_isPrintable_doubleQuoted _

lemma IsNumeral.all_isPrintable {cs : List Char} (h : IsNumeral cs) (negative : Bool) :
    (withSign negative cs).all isPrintable = true := by
  have hcs : cs.all isPrintable = true := List.all_eq_true.mpr fun ch hch =>
    (of_isNumberChar (h.chars ch hch)).2.2.1
  cases negative with
  | false => exact hcs
  | true =>
    show ('-' :: cs).all isPrintable = true
    rw [List.all_cons, hcs]
    decide

/-- What is no text, list or table is printed as a word or a numeral. -/
lemma all_isPrintable_atomChars (v : Json) : (atomChars v).all isPrintable = true := by
  cases v with
  | bool b => cases b <;> decide
  | int n =>
    show (toString n.val).toList.all isPrintable = true
    rw [toString_int, String.toList_ofList]
    exact (isNumeral_toDigits _).all_isPrintable _
  | double d =>
    obtain ⟨cs, hcs, hnumeral, -, -⟩ := text_eq d
    show (Double.text false d).toList.all isPrintable = true
    rw [hcs, String.toList_ofList]
    exact hnumeral.all_isPrintable _
  | null => decide
  | str s => show ['n', 'u', 'l', 'l'].all isPrintable = true; decide
  | arr items => show ['n', 'u', 'l', 'l'].all isPrintable = true; decide
  | obj fields => show ['n', 'u', 'l', 'l'].all isPrintable = true; decide

/-! ## Values -/

mutual

/-- A printed value is printable, wherever it stands. -/
theorem all_isPrintable_valueLines (indent : Nat) (afterKey : Bool) (v : Json) :
    (valueLines indent afterKey v).all isPrintable = true := by
  have hatom : (' ' :: (atomChars v ++ ['\n'])).all isPrintable = true := by
    rw [List.all_cons, List.all_append, all_isPrintable_atomChars]
    decide
  match v with
  | .null => exact hatom
  | .bool _ => exact hatom
  | .int _ => exact hatom
  | .double _ => exact hatom
  | .str s =>
    rw [valueLines, List.all_cons, all_isPrintable_textLines]
    decide
  | .arr [] =>
    show [' ', '[', ']', '\n'].all isPrintable = true
    decide
  | .obj [] =>
    show [' ', '\x7b', '\x7d', '\n'].all isPrintable = true
    decide
  | .arr (item :: items) =>
    cases afterKey with
    | false =>
      show (' ' :: itemLines (indent + 2) true (item :: items)).all isPrintable = true
      rw [List.all_cons, all_isPrintable_itemLines]
      decide
    | true =>
      show ('\n' :: itemLines indent false (item :: items)).all isPrintable = true
      rw [List.all_cons, all_isPrintable_itemLines]
      decide
  | .obj (field :: fields) =>
    cases afterKey with
    | false =>
      show (' ' :: fieldLines (indent + 2) true (field :: fields)).all isPrintable = true
      rw [List.all_cons, all_isPrintable_fieldLines]
      decide
    | true =>
      show ('\n' :: fieldLines (indent + 2) false (field :: fields)).all isPrintable = true
      rw [List.all_cons, all_isPrintable_fieldLines]
      decide

/-- The lines of a list are printable: they add dashes and blanks to those of its items. -/
theorem all_isPrintable_itemLines (indent : Nat) (started : Bool) (items : List Json) :
    (itemLines indent started items).all isPrintable = true := by
  match items with
  | [] => rfl
  | v :: more =>
    have hstart : (if started then [] else blanks indent).all isPrintable = true := by
      cases started with
      | false => exact all_isPrintable_blanks indent
      | true => rfl
    rw [itemLines, List.all_append, List.all_cons, List.all_append, hstart,
      all_isPrintable_valueLines, all_isPrintable_itemLines]
    decide

theorem all_isPrintable_fieldLines (indent : Nat) (started : Bool)
    (fields : List (String × Json)) :
    (fieldLines indent started fields).all isPrintable = true := by
  match fields with
  | [] => rfl
  | (name, v) :: more =>
    have hstart : (if started then [] else blanks indent).all isPrintable = true := by
      cases started with
      | false => exact all_isPrintable_blanks indent
      | true => rfl
    have hmore := all_isPrintable_fieldLines indent false more
    unfold fieldLines
    dsimp only
    by_cases hname : isShortKey name = true
    · have hvalue := all_isPrintable_valueLines indent true v
      rw [if_pos hname]
      simp only [List.all_append, List.all_cons, hstart, all_isPrintable_shortKey,
        hvalue, hmore]
      decide
    · have hvalue := all_isPrintable_valueLines indent false v
      rw [if_neg hname]
      simp only [List.all_append, List.all_cons, hstart, all_isPrintable_textLines,
        all_isPrintable_blanks, hvalue, hmore]
      decide

end

end Workplan.Yaml
