import Mathlib.Tactic.Lemma
import Workplan.Json.Reader
import Workplan.Json.Text
import Workplan.Proofs.Yaml.Numbers

/-!
# Unique readability

The compact text of a value can be read in one way only: where two compact texts, each
with something behind it that closes a value, are the same, the values are the same and
so is what follows them (`compactChars_append_inj`).  The first character tells the
shape of the value; strings are read back character by character, whatever has been
escaped in them (`stringBody_quoted`); and the texts of numbers end where no character
of a number follows.
-/

namespace Workplan.Json

/-! ## Strings -/

section
open Reader (hex4 numbered stringBody)

/-- A numbered escape of a control character reads back. -/
lemma numbered_controlEscape {c : Char} (h : c.toNat < 0x20) (rest : List Char) :
    ∃ ds, controlEscape c = '\\' :: 'u' :: ds ∧ numbered (ds ++ rest) = some (c, rest) := by
  have hdigits : ∀ n : Fin 32,
      List.replicate (4 - (Nat.toDigits 16 n).length) '0' ++ Nat.toDigits 16 n
        = ['0', '0', Nat.digitChar (n / 16), Nat.digitChar (n % 16)] ∧
      Text.natOfDigits? 16 ['0', '0', Nat.digitChar (n / 16), Nat.digitChar (n % 16)] =
        some n.val := by decide
  obtain ⟨hform, hvalue⟩ := hdigits ⟨c.toNat, h⟩
  refine ⟨_, rfl, ?_⟩
  rw [hform]
  show (hex4 (_ :: _ :: _ :: _ :: rest)).bind _ = _
  rw [hex4, hvalue]
  have hlow : ¬ (0xD800 ≤ c.toNat ∧ c.toNat < 0xDC00) := by omega
  have hhigh : ¬ (0xDC00 ≤ c.toNat ∧ c.toNat < 0xE000) := by omega
  simp only [Option.map_some, Option.bind_some, if_neg hlow, if_neg hhigh, Char.ofNat_toNat]

/-- A character that stands for itself reads back. -/
lemma stringBody_plain {c : Char} (hquote : c ≠ '"') (hslash : c ≠ '\\')
    (hprintable : ¬ c.toNat < 0x20) (fuel : Nat) (acc rest : List Char) :
    stringBody (fuel + 1) acc (c :: rest) = stringBody fuel (c :: acc) rest := by
  conv => lhs; unfold stringBody
  split
  · next heq => exact absurd (List.cons.inj heq).1 hquote
  · next heq => exact absurd (List.cons.inj heq).1 hslash
  · next heq => exact absurd (List.cons.inj heq).1 hslash
  · next heq =>
    obtain ⟨rfl, rfl⟩ := List.cons.inj heq
    rw [if_neg hprintable]
  · next heq => cases heq

/-- An escaped character reads back. -/
lemma stringBody_escapeChar (fuel : Nat) (acc : List Char) (c : Char) (rest : List Char) :
    stringBody (fuel + 1) acc (escapeChar c ++ rest) = stringBody fuel (c :: acc) rest := by
  unfold escapeChar
  split
  · subst c; rfl
  split
  · subst c; rfl
  split
  · subst c; rfl
  split
  · subst c; rfl
  split
  · subst c; rfl
  split
  · subst c; rfl
  split
  · subst c; rfl
  split
  · next hcontrol =>
    obtain ⟨ds, hform, hread⟩ := numbered_controlEscape hcontrol rest
    rw [hform]
    show (numbered (ds ++ rest)).bind _ = _
    rw [hread]
    rfl
  · next hquote hslash _ _ _ _ _ hprintable =>
      exact stringBody_plain hquote hslash hprintable fuel acc rest

/-- What stands between the quotes of a string reads back. -/
theorem stringBody_quoted (cs acc : List Char) {fuel : Nat} (hfuel : cs.length < fuel)
    (rest : List Char) :
    stringBody fuel acc (cs.flatMap escapeChar ++ '"' :: rest) =
      some (String.ofList (acc.reverse ++ cs), rest) := by
  induction cs generalizing acc fuel with
  | nil =>
    obtain ⟨fuel, rfl⟩ : ∃ n, fuel = n + 1 := ⟨fuel - 1, by simp at hfuel; omega⟩
    rw [List.append_nil]
    rfl
  | cons c cs ih =>
    obtain ⟨fuel, rfl⟩ : ∃ n, fuel = n + 1 := ⟨fuel - 1, by simp at hfuel; omega⟩
    rw [List.flatMap_cons, List.append_assoc, stringBody_escapeChar,
      ih (c :: acc) (by simpa using hfuel), List.reverse_cons, List.append_assoc]
    rfl

/-- A string in quotes ends where its closing quote stands. -/
lemma quote_append_inj {s t : String} {r r' : List Char}
    (h : quote s ++ r = quote t ++ r') : s = t ∧ r = r' := by
  have hbody : (s.toList.flatMap escapeChar ++ ['"']) ++
      r = (t.toList.flatMap escapeChar ++ ['"']) ++ r' :=
    (List.cons.inj h).2
  rw [List.append_assoc, List.append_assoc] at hbody
  have hs :=
    stringBody_quoted s.toList []
      (show s.toList.length < s.toList.length + t.toList.length + 1 by omega) r
  have ht :=
    stringBody_quoted t.toList []
      (show t.toList.length < s.toList.length + t.toList.length + 1 by omega) r'
  rw [show s.toList.flatMap escapeChar ++ '"' :: r = t.toList.flatMap escapeChar ++ '"' ::
    r' from hbody, ht, List.reverse_nil, List.nil_append, List.nil_append,
    String.ofList_toList, String.ofList_toList] at hs
  obtain ⟨rfl, rfl⟩ := Prod.mk.inj (Option.some.inj hs)
  exact ⟨rfl, rfl⟩

end

/-! ## Numbers -/

section
open Yaml (IsNumeral isNumberChar withSign)
open Double (Decimal)

/-- The characters of the text of a number. -/
def isNumberPart (c : Char) : Bool :=
  isNumberChar c || c == '+'

/-- A list of characters without its plus signs. -/
def withoutPlus (cs : List Char) : List Char :=
  cs.filter (· != '+')

lemma withoutPlus_append (cs ds : List Char) :
    withoutPlus (cs ++ ds) = withoutPlus cs ++ withoutPlus ds :=
  List.filter_append ..

/-- Without a plus sign nothing is taken away. -/
lemma withoutPlus_of_numberChars {cs : List Char} (h : ∀ c ∈ cs, isNumberChar c = true) :
    withoutPlus cs = cs := by
  refine List.filter_eq_self.mpr fun c hc => ?_
  rw [bne_iff_ne]
  rintro rfl
  exact absurd (h _ hc) (by decide)

/-- The plus sign is all that the two ways to write an exponent differ in. -/
lemma withoutPlus_scientific (d : Decimal) :
    withoutPlus (d.scientific true) = d.scientific false := by
  obtain ⟨mantissa, order, hform⟩ : ∃ (mantissa : List Char) (order : Int), ∀ plus : Bool,
      d.scientific plus = mantissa ++ 'e' ::
        ((if order < 0 then ['-'] else if plus then ['+'] else [])
        ++ Nat.toDigits 10 order.natAbs) := ⟨_, _, fun _ => rfl⟩
  have hchars := (Yaml.isNumeral_scientific d).1.chars
  rw [hform false] at hchars ⊢
  rw [hform true]
  by_cases hneg : order < 0
  · simp only [if_pos hneg] at hchars ⊢
    exact withoutPlus_of_numberChars hchars
  · simp only [if_neg hneg, if_neg Bool.false_ne_true, if_true, List.nil_append] at hchars ⊢
    have hmantissa := withoutPlus_of_numberChars fun c hc =>
      hchars c (List.mem_append_left _ hc)
    have hexponent := withoutPlus_of_numberChars fun c hc =>
      hchars c (List.mem_append_right _ hc)
    rw [withoutPlus_append, hmantissa]
    exact congrArg (mantissa ++ ·) hexponent

/-- The text of a double without its plus sign reads as the double. -/
lemma withoutPlus_doubleChars (d : Double) :
    withoutPlus (doubleChars d) = (Double.text false d).toList := by
  have hsigned : ∀ {cs ds : List Char}, withoutPlus cs = ds →
      withoutPlus (Double.signed d cs).toList = (Double.signed d ds).toList := by
    intro cs ds h
    unfold Double.signed
    rw [String.toList_ofList, String.toList_ofList, ← h]
    cases d.negative with
    | false => rfl
    | true => rfl
  refine hsigned ?_
  split
  · rfl
  · dsimp only
    split
    · exact withoutPlus_of_numberChars (Yaml.isNumeral_positional _).1.chars
    · exact withoutPlus_scientific _

/-- The text of an integer reads as the integer. -/
lemma intChars_eq (n : WordInt) : intChars n.val = (toString n.val).toList := by
  rw [Yaml.toString_int, String.toList_ofList, intChars, withSign]
  by_cases hneg : n.val < 0
  · rw [if_pos hneg, if_pos (decide_eq_true hneg)]
  · rw [if_neg hneg, if_neg (by simpa using hneg)]

lemma isNumberChar_of_mem_intChars {n : Int} : ∀ c ∈ intChars n, isNumberChar c = true := by
  have hdigits := (Yaml.isNumeral_toDigits n.natAbs).chars
  unfold intChars
  split
  · exact List.forall_mem_cons.mpr ⟨rfl, hdigits⟩
  · exact hdigits

/-- The characters of an integer are among those of numbers. -/
lemma isNumberPart_of_isNumberChar {c : Char} (h : isNumberChar c = true) :
    isNumberPart c = true := by
  rw [isNumberPart, h]
  rfl

lemma isNumberPart_of_mem_doubleChars {d : Double} :
    ∀ c ∈ doubleChars d, isNumberPart c = true := by
  intro c hc
  by_cases hplus : c = '+'
  · rw [hplus]
    rfl
  · have hmem : c ∈ withoutPlus (doubleChars d) :=
      List.mem_filter.mpr ⟨hc, bne_iff_ne.mpr hplus⟩
    obtain ⟨cs, htext, hnumeral, -⟩ := Yaml.text_eq d
    rw [withoutPlus_doubleChars, htext, String.toList_ofList] at hmem
    have hchar : isNumberChar c = true := by
      unfold withSign at hmem
      split at hmem
      · rcases List.mem_cons.mp hmem with rfl | hmem
        · rfl
        · exact hnumeral.chars c hmem
      · exact hnumeral.chars c hmem
    exact isNumberPart_of_isNumberChar hchar

lemma intChars_ne_nil (n : Int) : intChars n ≠ [] := by
  unfold intChars
  split
  · exact List.cons_ne_nil _ _
  · exact Nat.toDigits_ne_nil

lemma doubleChars_ne_nil (d : Double) : doubleChars d ≠ [] := by
  intro hnil
  have hback := withoutPlus_doubleChars d
  obtain ⟨cs, htext, hnumeral, -⟩ := Yaml.text_eq d
  obtain ⟨c, rest, hhead, -⟩ := hnumeral.sign_head d.negative
  rw [hnil, htext, String.toList_ofList, hhead] at hback
  cases hback

/-- An integer can be read from its text, as the same word. -/
lemma resolve_intChars (n : WordInt) :
    Yaml.resolve (String.ofList (withoutPlus (intChars n.val))) = .ok (.int n) := by
  rw [withoutPlus_of_numberChars isNumberChar_of_mem_intChars, intChars_eq,
    String.ofList_toList, Yaml.resolve_int]

/-- So can a double, once the plus sign of its exponent is taken away. -/
lemma resolve_doubleChars (d : Double) :
    Yaml.resolve (String.ofList (withoutPlus (doubleChars d))) =
      .ok (.float (.finite d)) := by
  rw [withoutPlus_doubleChars, String.ofList_toList, Yaml.resolve_text]

end

/-! ## Shapes -/

/-- What the first character of a text tells about the value. -/
inductive Shape where
  | null
  | bool (b : Bool)
  | number
  | text
  | items
  | fields

/-- The shape of a value. -/
def shape : Json → Shape
  | null => .null
  | bool b => .bool b
  | int _ => .number
  | double _ => .number
  | str _ => .text
  | arr _ => .items
  | obj _ => .fields

/-- The shape of the values whose text starts with a character. -/
def shapeOfHead? (c : Char) : Option Shape :=
  if c = 'n' then some .null
  else if c = 't' then some (.bool true)
  else if c = 'f' then some (.bool false)
  else if c = '"' then some .text
  else if c = '[' then some .items
  else if c = '\x7b' then some .fields
  else if isNumberPart c then some .number
  else none

lemma shapeOfHead?_of_isNumberPart {c : Char} (h : isNumberPart c = true) :
    shapeOfHead? c = some .number := by
  have hne : ∀ {c' : Char}, isNumberPart c' = false → c ≠ c' := by
    rintro c' h' rfl
    rw [h] at h'
    cases h'
  rw [shapeOfHead?, if_neg (hne (by decide)), if_neg (hne (by decide)),
    if_neg (hne (by decide)), if_neg (hne (by decide)), if_neg (hne (by decide)),
    if_neg (hne (by decide)), if_pos h]

/-- The first character of a text tells the shape of the value. -/
lemma head_compactChars (v : Json) :
    ∃ c cs, compactChars v = c :: cs ∧ shapeOfHead? c = some v.shape := by
  have hnumber : ∀ {cs : List Char}, cs ≠ [] → (∀ c ∈ cs, isNumberPart c = true) →
      ∃ c cs', cs = c :: cs' ∧ shapeOfHead? c = some .number := by
    intro cs hne hchars
    obtain ⟨c, cs', rfl⟩ := List.exists_cons_of_ne_nil hne
    exact ⟨c, cs', rfl, shapeOfHead?_of_isNumberPart (hchars c List.mem_cons_self)⟩
  cases v with
  | null => exact ⟨_, _, rfl, rfl⟩
  | bool b => cases b <;> exact ⟨_, _, rfl, rfl⟩
  | int n => exact hnumber (intChars_ne_nil n.val) fun c hc =>
      isNumberPart_of_isNumberChar (isNumberChar_of_mem_intChars c hc)
  | double d => exact hnumber (doubleChars_ne_nil d) isNumberPart_of_mem_doubleChars
  | str s => exact ⟨_, _, rfl, rfl⟩
  | arr items => exact ⟨_, _, rfl, rfl⟩
  | obj fields => exact ⟨_, _, rfl, rfl⟩

/-- No text starts with a character that no shape starts with. -/
lemma ne_close_of_head (v : Json) {close : Char}
    (hclose : (shapeOfHead? close).isNone = true) :
    ∃ c cs, compactChars v = c :: cs ∧ c ≠ close := by
  obtain ⟨c, cs, hc, hshape⟩ := head_compactChars v
  refine ⟨c, cs, hc, ?_⟩
  rintro rfl
  rw [hshape] at hclose
  cases hclose

/-- The text of a value begins as no value of another shape does. -/
lemma shape_eq_of_append_eq {v w : Json} {r r' : List Char}
    (h : compactChars v ++ r = compactChars w ++ r') :
    v.shape = w.shape := by
  obtain ⟨c, cs, hc, hshape⟩ := head_compactChars v
  obtain ⟨c', cs', hc', hshape'⟩ := head_compactChars w
  rw [hc, hc'] at h
  obtain rfl : c = c' := (List.cons.inj h).1
  exact Option.some.inj (hshape.symm.trans hshape')

/-! ## Ends of values -/

/-- What stands behind a value inside another one, or behind a whole text, closes the
value. -/
def Closes (rest : List Char) : Prop :=
  ∀ c ∈ rest.head?, c = ',' ∨ c = ']' ∨ c = '\x7d'

/-- What closes a value does not continue a number. -/
lemma not_isNumberPart_of_closes {rest : List Char} (h : Closes rest) :
    ∀ c ∈ rest.head?, isNumberPart c = false := by
  intro c hc
  rcases h c hc with rfl | rfl | rfl <;> decide

/-- Two runs of characters of one kind end at the same place. -/
lemma run_append_inj {p : Char → Bool} {cs ds r r' : List Char} (hcs : ∀ c ∈ cs, p c = true)
    (hds : ∀ c ∈ ds, p c = true) (hr : ∀ c ∈ r.head?, p c = false)
    (hr' : ∀ c ∈ r'.head?, p c = false) (h : cs ++ r = ds ++ r') : cs = ds ∧ r = r' := by
  have hrun : ∀ {r : List Char}, (∀ c ∈ r.head?, p c = false) → r.takeWhile p = [] := by
    intro r hr
    cases r with
    | nil => rfl
    | cons c r =>
      exact List.takeWhile_cons_of_neg (by rw [hr c rfl]; exact Bool.false_ne_true)
  have htake := congrArg (List.takeWhile p) h
  rw [List.takeWhile_append_of_pos hcs, List.takeWhile_append_of_pos hds, hrun hr,
    hrun hr', List.append_nil, List.append_nil] at htake
  subst htake
  exact ⟨rfl, List.append_cancel_left h⟩

/-- Numbers with the same text are the same. -/
lemma number_inj {v w : Json} (hv : v.shape = .number) (hw : w.shape = .number)
    (h : compactChars v = compactChars w) : v = w := by
  have hread := congrArg (fun cs => Yaml.resolve (String.ofList (withoutPlus cs))) h
  cases v with
  | int n =>
    cases w with
    | int m =>
      have hatom := (resolve_intChars n).symm.trans (hread.trans (resolve_intChars m))
      cases hatom
      rfl
    | double e =>
      have hatom := (resolve_intChars n).symm.trans (hread.trans (resolve_doubleChars e))
      cases hatom
    | _ => cases hw
  | double d =>
    cases w with
    | int m =>
      have hatom := (resolve_doubleChars d).symm.trans (hread.trans (resolve_intChars m))
      cases hatom
    | double e =>
      have hatom := (resolve_doubleChars d).symm.trans (hread.trans (resolve_doubleChars e))
      cases hatom
      rfl
    | _ => cases hw
  | _ => cases hv

lemma isNumberPart_of_number {v : Json} (hv : v.shape = .number) :
    ∀ c ∈ compactChars v, isNumberPart c = true := by
  cases v with
  | int n =>
    exact fun c hc => isNumberPart_of_isNumberChar (isNumberChar_of_mem_intChars c hc)
  | double d => exact isNumberPart_of_mem_doubleChars
  | _ => cases hv

/-- The text of a number, in front of what closes it, is read in one way only. -/
lemma number_append_inj {v w : Json} {r r' : List Char} (hv : v.shape = .number)
    (hr : Closes r) (hr' : Closes r') (h : compactChars v ++ r = compactChars w ++ r') :
    v = w ∧ r = r' := by
  have hw := (shape_eq_of_append_eq h).symm.trans hv
  obtain ⟨htext, hrest⟩ :=
    run_append_inj (isNumberPart_of_number hv) (isNumberPart_of_number hw)
    (not_isNumberPart_of_closes hr) (not_isNumberPart_of_closes hr') h
  exact ⟨number_inj hv hw htext, hrest⟩

/-! ## Lists -/

section
variable {α : Type} {text : α → List Char} {close : Char}

/-- Texts with commas between them. -/
def separated (text : α → List Char) : List α → List Char
  | [] => []
  | [x] => text x
  | x :: rest => text x ++ ',' :: separated text rest

/-- What follows the first of several texts. -/
def behindFirst (text : α → List Char) : List α → List Char
  | [] => []
  | x :: rest => ',' :: separated text (x :: rest)

/-- Behind the first part each further one has a comma in front of it. -/
lemma separated_cons (x : α) (rest : List α) :
    separated text (x :: rest) = text x ++ behindFirst text rest := by
  cases rest with
  | nil => exact (List.append_nil _).symm
  | cons y rest => rfl

/-- A part is closed by a comma or by the closing bracket. -/
lemma closes_behindFirst (hclose : close = ']' ∨ close = '\x7d')
    (xs : List α) (r : List Char) :
    Closes (behindFirst text xs ++ close :: r) := by
  intro c hc
  cases xs with
  | nil =>
    obtain rfl := Option.some.inj hc
    exact Or.inr hclose
  | cons x xs => exact Or.inl (Option.some.inj hc).symm

/-- Lists of texts that are read in one way only are read in one way only, up to the
bracket that closes them. -/
lemma separated_append_inj (hclose : close = ']' ∨ close = '\x7d')
    (hhead : ∀ x, ∃ c cs, text x = c :: cs ∧ c ≠ close) {xs : List α}
    (hinj : ∀ x ∈ xs, ∀ (y : α) {r r' : List Char}, Closes r → Closes r' →
      text x ++ r = text y ++ r' → x = y ∧ r = r')
    {ys : List α} {r r' : List Char}
    (h : separated text xs ++ close :: r = separated text ys ++ close :: r') :
    xs = ys ∧ r = r' := by
  have hstart : ∀ (x : α) (rest : List α) (s s' : List Char), separated text
      (x :: rest) ++ s ≠ close :: s' := by
    intro x rest s s' heq
    obtain ⟨c, cs, hc, hne⟩ := hhead x
    rw [separated_cons, hc] at heq
    exact hne (List.cons.inj heq).1
  induction xs generalizing ys with
  | nil =>
    cases ys with
    | nil => exact ⟨rfl, (List.cons.inj h).2⟩
    | cons y ys => exact absurd h.symm (hstart y ys _ _)
  | cons x xs ih =>
    cases ys with
    | nil => exact absurd h (hstart x xs _ _)
    | cons y ys =>
      rw [separated_cons, separated_cons, List.append_assoc, List.append_assoc] at h
      obtain ⟨rfl, hbehind⟩ := hinj x List.mem_cons_self y (closes_behindFirst hclose xs r)
        (closes_behindFirst hclose ys r') h
      -- The first items are the same.  Behind them both lists have a comma, or both
      -- are closed.
      have hcomma : close ≠ ',' := by rcases hclose with rfl | rfl <;> decide
      cases xs with
      | nil =>
        cases ys with
        | nil => exact ⟨rfl, (List.cons.inj hbehind).2⟩
        | cons y' ys => exact absurd (List.cons.inj hbehind).1 hcomma
      | cons x' xs =>
        cases ys with
        | nil => exact absurd (List.cons.inj hbehind).1.symm hcomma
        | cons y' ys =>
          obtain ⟨hsame, hrest⟩ := ih (fun z hz => hinj z (List.mem_cons_of_mem _ hz))
            (List.cons.inj hbehind).2
          exact ⟨congrArg (x :: ·) hsame, hrest⟩

end

/-- The text of a field. -/
def fieldChars (e : String × Json) : List Char :=
  quote e.1 ++ ':' :: compactChars e.2

/-- The items of a list are separated parts. -/
lemma compactItems_eq (items : List Json) :
    compactItems items = separated compactChars items := by
  induction items with
  | nil => rfl
  | cons v rest ih =>
    cases rest with
    | nil => rfl
    | cons w rest => exact congrArg (fun cs => compactChars v ++ ',' :: cs) ih

lemma compactFields_eq (fields : List (String × Json)) :
    compactFields fields = separated fieldChars fields := by
  induction fields with
  | nil => rfl
  | cons e rest ih =>
    obtain ⟨n, v⟩ := e
    cases rest with
    | nil => rfl
    | cons e' rest =>
      show quote n ++ ':' :: (compactChars v ++ ',' :: compactFields (e' :: rest))
        = (quote n ++ ':' :: compactChars v) ++ ',' :: separated fieldChars (e' :: rest)
      rw [ih, List.append_assoc]
      rfl

lemma compactChars_arr_append (items : List Json) (r : List Char) :
    compactChars (arr items) ++ r = '[' :: (separated compactChars items ++ ']' :: r) := by
  rw [compactChars, compactItems_eq, List.cons_append, List.append_assoc]
  rfl

lemma compactChars_obj_append (fields : List (String × Json)) (r : List Char) :
    compactChars (obj fields) ++ r = '\x7b' ::
      (separated fieldChars fields ++ '\x7d' :: r) := by
  rw [compactChars, compactFields_eq, List.cons_append, List.append_assoc]
  rfl

lemma head_fieldChars (e : String × Json) : ∃ c cs, fieldChars e = c :: cs ∧ c ≠ '\x7d' :=
  ⟨'"', _, rfl, by decide⟩

/-- A field is read in one way only if its value is. -/
lemma fieldChars_append_inj {e e' : String × Json} {r r' : List Char}
    (hvalue : ∀ (w : Json) {r r' : List Char}, Closes r → Closes r' →
      compactChars e.2 ++ r = compactChars w ++ r' →
      e.2 = w ∧ r = r')
    (hr : Closes r) (hr' : Closes r') (h : fieldChars e ++ r = fieldChars e' ++ r') :
    e = e' ∧ r = r' := by
  rw [fieldChars, fieldChars, List.append_assoc, List.append_assoc] at h
  obtain ⟨hname, hbehind⟩ := quote_append_inj h
  obtain ⟨hsame, hrest⟩ := hvalue e'.2 hr hr' (List.cons.inj hbehind).2
  exact ⟨Prod.ext hname hsame, hrest⟩

/-! ## Values -/

/-- Induction over what a value contains. -/
lemma nested_induction {P : Json → Prop} (null : P .null) (bool : ∀ b, P (.bool b))
    (int : ∀ n, P (.int n)) (double : ∀ d, P (.double d)) (str : ∀ s, P (.str s))
    (arr : ∀ items, (∀ v ∈ items, P v) → P (.arr items))
    (obj : ∀ fields, (∀ e ∈ fields, P e.2) → P (.obj fields)) (v : Json) : P v := by
  cases v with
  | null => exact null
  | bool b => exact bool b
  | int n => exact int n
  | double d => exact double d
  | str s => exact str s
  | arr items =>
    exact arr items fun v _ => nested_induction null bool int double str arr obj v
  | obj fields =>
    exact obj fields fun e _ => nested_induction null bool int double str arr obj e.2
termination_by sizeOf v
decreasing_by
  · next hv =>
    have hlt := List.sizeOf_lt_of_mem hv
    rw [Json.arr.sizeOf_spec]
    omega
  · next he =>
    have hlt := List.sizeOf_lt_of_mem he
    obtain ⟨n, v⟩ := e
    rw [Prod.mk.sizeOf_spec] at hlt
    rw [Json.obj.sizeOf_spec]
    show sizeOf v < _
    omega

/-- The text of a value, in front of what closes it, is read in one way only. -/
theorem compactChars_append_inj (v w : Json) {r r' : List Char} (hr : Closes r)
    (hr' : Closes r') (h : compactChars v ++ r = compactChars w ++ r') :
    v = w ∧ r = r' := by
  -- Values of different shapes have texts that start with different characters.
  induction v using nested_induction generalizing w r r' with
  | null =>
    cases w with
    | null => exact ⟨rfl, List.append_cancel_left h⟩
    | _ => cases shape_eq_of_append_eq h
  | bool b =>
    cases w with
    | bool b' =>
      cases shape_eq_of_append_eq h
      exact ⟨rfl, List.append_cancel_left h⟩
    | _ => cases shape_eq_of_append_eq h
  | int n => exact number_append_inj rfl hr hr' h
  | double d => exact number_append_inj rfl hr hr' h
  | str s =>
    cases w with
    | str t =>
      obtain ⟨rfl, hrest⟩ := quote_append_inj h
      exact ⟨rfl, hrest⟩
    | _ => cases shape_eq_of_append_eq h
  | arr items ih =>
    cases w with
    | arr items' =>
      rw [compactChars_arr_append, compactChars_arr_append] at h
      obtain ⟨rfl, hrest⟩ :=
        separated_append_inj (Or.inl rfl) (fun x => ne_close_of_head x (by decide)) ih
        (List.cons.inj h).2
      exact ⟨rfl, hrest⟩
    | _ => cases shape_eq_of_append_eq h
  | obj fields ih =>
    cases w with
    | obj fields' =>
      rw [compactChars_obj_append, compactChars_obj_append] at h
      obtain ⟨rfl, hrest⟩ := separated_append_inj (Or.inr rfl) head_fieldChars
        (fun e he e' r r' hr hr' heq => fieldChars_append_inj (ih e he) hr hr' heq)
          (List.cons.inj h).2
      exact ⟨rfl, hrest⟩
    | _ => cases shape_eq_of_append_eq h

/-- Values with the same compact text are the same. -/
theorem compact_inj {v w : Json} : v.compact = w.compact ↔ v = w := by
  refine ⟨fun h => ?_, fun h => congrArg compact h⟩
  have hnothing : Closes [] := fun c hc => by cases hc
  have hchars : compactChars v ++ [] = compactChars w ++ [] :=
    congrArg (· ++ []) (String.ofList_inj.mp h)
  exact (compactChars_append_inj v w hnothing hnothing hchars).1

end Workplan.Json
