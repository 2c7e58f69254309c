import Mathlib.Tactic.Lemma
import Workplan.Proofs.Double.Shortest
import Workplan.Proofs.Text.Digits
import Workplan.Yaml.Resolution

/-!
# Numbers read back

The text of a double reads back as that double, whichever of the two notations it is
written in (`resolve_text`), and the text of an integer as that integer (`resolve_int`).
Neither is taken for the other, and neither looks like a number with leading zeros.
-/

namespace Workplan.Yaml

open Double (Decimal ofDecimal? digitCount)

/-! ## Digits in a text -/

/-- What follows a run of digits does not continue it. -/
def NoDigitHead (rest : List Char) : Prop :=
  ∀ c, rest.head? = some c → c.isDigit = false

/-- Digits are read as far as they go. -/
lemma takeWhile_digits {ds rest : List Char} (hds : ∀ c ∈ ds, c.isDigit = true)
    (hrest : NoDigitHead rest) :
    (ds ++ rest).takeWhile Char.isDigit = ds := by
  rw [List.takeWhile_append_of_pos hds]
  cases rest with
  | nil => simp
  | cons c rest => rw [List.takeWhile_cons_of_neg (by simp [hrest c rfl]), List.append_nil]

lemma dropWhile_digits {ds rest : List Char} (hds : ∀ c ∈ ds, c.isDigit = true)
    (hrest : NoDigitHead rest) :
    (ds ++ rest).dropWhile Char.isDigit = rest := by
  rw [List.dropWhile_append_of_pos hds]
  cases rest with
  | nil => rfl
  | cons c rest => rw [List.dropWhile_cons_of_neg (by simp [hrest c rfl])]

lemma isDigit_of_mem_toDigits {n : Nat} : ∀ c ∈ Nat.toDigits 10 n, c.isDigit = true :=
  fun _ hc => Nat.isDigit_of_mem_toDigits (by omega) (by omega) hc

lemma isDigit_of_mem_zeros {n : Nat} : ∀ c ∈ Double.zeros n, c.isDigit = true := by
  intro c hc
  rw [List.eq_of_mem_replicate hc]
  rfl

/-- Without a point there is no fraction. -/
lemma splitFraction_of_head {tail : List Char} (hpoint : tail.head? ≠ some '.') :
    splitFraction tail = ([], tail) := by
  unfold splitFraction
  split
  · exact absurd rfl hpoint
  · rfl

/-- A number with a point: the digits on both sides count as one number. -/
lemma decimal?_point (negative : Bool) {whole fraction tail : List Char} {order : Int}
    (hwhole : ∀ c ∈ whole, c.isDigit = true) (hfraction : ∀ c ∈ fraction, c.isDigit = true)
    (hne : whole ≠ []) (htail : NoDigitHead tail) (horder : exponent? tail = some order) :
    decimal? negative (whole ++ '.' :: (fraction ++ tail))
      = ofDecimal? negative (Nat.ofDigitChars 10 (whole ++ fraction) 0)
        (order - fraction.length) := by
  have hpoint : NoDigitHead ('.' :: (fraction ++ tail)) := by
    intro c hc
    obtain rfl := Option.some.inj hc
    rfl
  have hdigits : ∀ c ∈ whole ++ fraction, c.isDigit = true := fun c hc =>
    (List.mem_append.mp hc).elim (hwhole c) (hfraction c)
  unfold decimal?
  rw [takeWhile_digits hwhole hpoint, dropWhile_digits hwhole hpoint, splitFraction,
    takeWhile_digits hfraction htail, dropWhile_digits hfraction htail]
  dsimp only
  rw [Text.natOfDigits?_of_isDigit (by simp [hne]) hdigits, horder]
  rfl

/-- A number without a point. -/
lemma decimal?_whole (negative : Bool) {whole tail : List Char} {order : Int}
    (hwhole : ∀ c ∈ whole, c.isDigit = true) (hne : whole ≠ []) (htail : NoDigitHead tail)
    (hpoint : tail.head? ≠ some '.') (horder : exponent? tail = some order) :
    decimal? negative (whole ++ tail) = ofDecimal? negative
      (Nat.ofDigitChars 10 whole 0) order := by
  unfold decimal?
  rw [takeWhile_digits hwhole htail, dropWhile_digits hwhole htail,
    splitFraction_of_head hpoint]
  dsimp only
  rw [List.append_nil, Text.natOfDigits?_of_isDigit hne hwhole, horder]
  show ofDecimal? negative _ (order - (([] : List Char).length : Nat)) = _
  rw [List.length_nil, Int.natCast_zero, Int.sub_zero]

/-! ## The notations of a double -/

lemma exponent?_nil : exponent? [] = some 0 := rfl

/-- A printed exponent is read back. -/
lemma exponent?_scientific (order : Int) :
    exponent? ('e' ::
        ((if order < 0 then ['-'] else []) ++ Nat.toDigits 10 order.natAbs)) =
      some order := by
  unfold exponent?
  dsimp only
  rw [if_pos (Or.inl rfl)]
  by_cases hneg : order < 0
  · rw [if_pos hneg]
    show (Text.natOfDigits? 10 (Nat.toDigits 10 order.natAbs)).map
      (fun n : Nat => -(n : Int)) = some order
    rw [Text.natOfDigits?_toDigits, Option.map_some]
    congr 1
    omega
  · rw [if_neg hneg, List.nil_append]
    have hdigit := isDigit_of_mem_toDigits (n := order.natAbs)
    split
    · next ds heq =>
        rw [heq] at hdigit; exact absurd (hdigit '+' List.mem_cons_self) (by decide)
    · next ds heq =>
        rw [heq] at hdigit; exact absurd (hdigit '-' List.mem_cons_self) (by decide)
    · rw [Text.natOfDigits?_toDigits, Option.map_some]
      congr 1
      omega

/-- Digits on both sides of a point, which come to the decimal number. -/
structure Pointed (d : Decimal) (whole fraction : List Char) : Prop where
  ne_nil : whole ≠ []
  whole_digits : ∀ c ∈ whole, c.isDigit = true
  fraction_digits : ∀ c ∈ fraction, c.isDigit = true
  value : ∃ k : Nat, Nat.ofDigitChars 10 (whole ++ fraction) 0 = d.digits * Nat.pow 10 k ∧
    d.exponent - k = -(fraction.length : Int)

/-- Positional notation has a point behind the digits, among them or in front of them. -/
lemma positional_pointed (d : Decimal) :
    ∃ whole fraction, d.positional = whole ++ '.' :: fraction ∧
      Pointed d whole fraction := by
  have hdigits := isDigit_of_mem_toDigits (n := d.digits)
  unfold Decimal.positional
  dsimp only
  -- The point stands behind the digits and zeros, among the digits, or in front of zeros
  -- and the digits.
  by_cases hexp : 0 ≤ d.exponent
  · rw [if_pos hexp]
    refine ⟨Nat.toDigits 10 d.digits ++ Double.zeros d.exponent.toNat, ['0'], by simp,
      by simp [Nat.toDigits_ne_nil],
      fun c hc => (List.mem_append.mp hc).elim (hdigits c) (isDigit_of_mem_zeros c),
      List.forall_mem_singleton.mpr rfl, d.exponent.toNat + 1, ?_,
      by simp only [List.length_singleton]; omega⟩
    have hzeros : Double.zeros d.exponent.toNat ++ ['0'] =
        List.replicate (d.exponent.toNat + 1) '0' :=
      List.replicate_succ'.symm
    rw [List.append_assoc, Nat.ofDigitChars_append, Nat.ofDigitChars_ten_toDigits, hzeros,
      Nat.ofDigitChars_replicate_zero, Nat.mul_comm]
    rfl
  · rw [if_neg hexp]
    by_cases hpoint : 0 < ((Nat.toDigits 10 d.digits).length : Int) + d.exponent
    · rw [if_pos hpoint]
      generalize hp : (((Nat.toDigits 10 d.digits).length : Int) + d.exponent).toNat = p
      refine ⟨(Nat.toDigits 10 d.digits).take p, (Nat.toDigits 10 d.digits).drop p, rfl,
        by simp [Nat.toDigits_ne_nil]; omega,
        fun c hc => hdigits c (List.mem_of_mem_take hc),
        fun c hc => hdigits c (List.mem_of_mem_drop hc), 0, ?_,
        by rw [List.length_drop]; omega⟩
      rw [List.take_append_drop, Nat.ofDigitChars_ten_toDigits]
      exact (Nat.mul_one _).symm
    · rw [if_neg hpoint]
      generalize hz : (-(((Nat.toDigits 10 d.digits).length : Int) + d.exponent)).toNat = z
      refine ⟨['0'], Double.zeros z ++ Nat.toDigits 10 d.digits, rfl, List.cons_ne_nil _ _,
        List.forall_mem_singleton.mpr rfl,
        fun c hc => (List.mem_append.mp hc).elim (isDigit_of_mem_zeros c) (hdigits c), 0,
        ?_, by rw [List.length_append, Double.zeros, List.length_replicate]; omega⟩
      have hzeros : ['0'] ++ (Double.zeros z ++ Nat.toDigits 10 d.digits)
          = List.replicate (z + 1) '0' ++ Nat.toDigits 10 d.digits := rfl
      rw [hzeros, Nat.ofDigitChars_append, Nat.ofDigitChars_replicate_zero, Nat.mul_zero,
        Nat.ofDigitChars_ten_toDigits]
      exact (Nat.mul_one _).symm

/-- Positional notation reads as the decimal number. -/
lemma decimal?_positional {d : Decimal} (hd : d.digits ≠ 0) (negative : Bool) :
    decimal? negative d.positional = ofDecimal? negative d.digits d.exponent := by
  have hnil : NoDigitHead [] := fun c hc => by cases hc
  obtain ⟨whole, fraction, hpositional, hpointed⟩ := positional_pointed d
  obtain ⟨k, hvalue, hexponent⟩ := hpointed.value
  have hread :=
    decimal?_point negative hpointed.whole_digits hpointed.fraction_digits hpointed.ne_nil
      hnil exponent?_nil
  rw [List.append_nil, hvalue, Int.zero_sub, ← hexponent] at hread
  rw [hpositional, hread]
  exact Double.ofDecimal?_mul_pow negative hd d.exponent k

/-- Scientific notation reads as the decimal number. -/
lemma decimal?_scientific (d : Decimal) (negative : Bool) :
    decimal? negative (d.scientific false) = ofDecimal? negative d.digits d.exponent := by
  have hdigits := isDigit_of_mem_toDigits (n := d.digits)
  have hvalue := Nat.ofDigitChars_ten_toDigits (n := d.digits)
  unfold Decimal.scientific
  dsimp only
  rw [if_neg (by decide : ¬ false = true)]
  generalize horder : ((Nat.toDigits 10 d.digits).length : Int) + d.exponent - 1 = order
  have htail := exponent?_scientific order
  generalize hrest : (if order < 0 then ['-'] else []) ++ Nat.toDigits 10 order.natAbs =
    rest at htail ⊢
  have hhead : NoDigitHead ('e' :: rest) := by
    intro c hc
    obtain rfl := Option.some.inj hc
    rfl
  -- A single digit has no point behind it.
  cases hds : Nat.toDigits 10 d.digits with
  | nil => exact absurd hds Nat.toDigits_ne_nil
  | cons c more =>
    rw [hds] at hdigits hvalue horder
    cases more with
    | nil =>
      have hread := decimal?_whole negative hdigits (by simp) hhead (by simp) htail
      rw [hvalue] at hread
      show decimal? negative ([c] ++ 'e' :: rest) = _
      rw [hread]
      congr 1
      simp only [List.length_singleton] at horder
      omega
    | cons c' more =>
      rw [List.forall_mem_cons] at hdigits
      have hread :=
        decimal?_point negative (List.forall_mem_singleton.mpr hdigits.1) hdigits.2
          (by simp) hhead htail
      show decimal? negative ([c] ++ '.' :: (c' :: more ++ 'e' :: rest)) = _
      rw [hread, List.singleton_append, hvalue]
      congr 1
      simp only [List.length_cons] at horder ⊢
      omega

/-! ## Numerals

What the two kinds of number have in common as texts: a sign or none, a digit, and no
character that any other scalar starts with. -/

/-- The characters of numbers. -/
def isNumberChar (c : Char) : Bool :=
  c.isDigit || c == '.' || c == 'e' || c == '-'

/-- The characters of a number without its sign. -/
structure IsNumeral (cs : List Char) : Prop where
  chars : ∀ c ∈ cs, isNumberChar c = true
  head : ∃ c rest, cs = c :: rest ∧ c.isDigit = true

/-- A sign in front of a negative number. -/
def withSign (negative : Bool) (cs : List Char) : List Char :=
  if negative then '-' :: cs else cs

section
variable {cs : List Char} {negative : Bool}

/-- A numeral begins with a digit or a minus sign. -/
theorem IsNumeral.sign_head (h : IsNumeral cs) (negative : Bool) :
    ∃ c rest, withSign negative cs = c :: rest ∧ (c.isDigit = true ∨ c = '-') := by
  obtain ⟨c, rest, rfl, hc⟩ := h.head
  cases negative with
  | false => exact ⟨c, rest, rfl, Or.inl hc⟩
  | true => exact ⟨'-', c :: rest, rfl, Or.inr rfl⟩

/-- A numeral with its sign is none of the texts that start with another character. -/
lemma IsNumeral.ne_of_head (h : IsNumeral cs) {t : String}
    (ht : t.toList.head?.any (fun c => c.isDigit || c == '-') = false) :
    (String.ofList (withSign negative cs) == t) = false := by
  rw [beq_eq_false_iff_ne]
  rintro rfl
  obtain ⟨c, rest, hcs, hc⟩ := h.sign_head negative
  rw [String.toList_ofList, hcs, List.head?_cons, Option.any_some,
    Bool.or_eq_false_iff] at ht
  rcases hc with hc | hc
  · rw [hc] at ht
    cases ht.1
  · exact beq_eq_false_iff_ne.mp ht.2 hc

lemma IsNumeral.not_isEmpty (h : IsNumeral cs) :
    (String.ofList (withSign negative cs)).isEmpty = false := by
  obtain ⟨c, rest, hcs, -⟩ := h.sign_head negative
  rw [hcs, String.isEmpty_eq_false_iff]
  intro hempty
  have hlist := congrArg String.toList hempty
  rw [String.toList_ofList] at hlist
  cases hlist

/-- A numeral does not read as nothing. -/
lemma IsNumeral.not_isNull (h : IsNumeral cs) :
    isNull (String.ofList (withSign negative cs)) = false := by
  unfold isNull
  rw [h.ne_of_head (by decide), h.ne_of_head (by decide), h.ne_of_head (by decide),
    h.ne_of_head (by decide)]
  rfl

lemma IsNumeral.readBool? (h : IsNumeral cs) :
    readBool? (String.ofList (withSign negative cs)) = none := by
  unfold Yaml.readBool?
  rw [h.ne_of_head (by decide), h.ne_of_head (by decide), h.ne_of_head (by decide),
    h.ne_of_head (by decide), h.ne_of_head (by decide), h.ne_of_head (by decide)]
  rfl

lemma IsNumeral.splitSign (h : IsNumeral cs) :
    splitSign (withSign negative cs) = (negative, cs) := by
  obtain ⟨c, rest, rfl, hc⟩ := h.head
  cases negative with
  | true => rfl
  | false =>
    show Yaml.splitSign (c :: rest) = (false, c :: rest)
    unfold Yaml.splitSign
    split
    · next heq => rw [(List.cons.inj heq).1] at hc; cases hc
    · next heq => rw [(List.cons.inj heq).1] at hc; cases hc
    · rfl

lemma IsNumeral.behindPlus? (h : IsNumeral cs) :
    behindPlus? (withSign negative cs) = some (withSign negative cs) := by
  obtain ⟨c, rest, hcs, hc⟩ := h.sign_head negative
  have hplus : c ≠ '+' := by
    rintro rfl
    rcases hc with hc | hc <;> cases hc
  rw [hcs]
  unfold Yaml.behindPlus?
  split
  · next heq => exact absurd (List.cons.inj heq).1 hplus
  · next heq => exact absurd (List.cons.inj heq).1 hplus
  · next heq => exact absurd (List.cons.inj heq).1 hplus
  · rfl

lemma IsNumeral.hasLeadingZero (h : IsNumeral cs) :
    hasLeadingZero (String.ofList (withSign negative cs)) = isZeroFilled cs := by
  rw [Yaml.hasLeadingZero, String.toList_ofList, h.splitSign]

/-- Whether a numeral is an integer depends on its digits. -/
lemma IsNumeral.readInt (h : IsNumeral cs) (hz : isZeroFilled cs = false) :
    readInt (String.ofList (withSign negative cs)) =
      match magnitude? cs with
      | none => .notInt
      | some n => .ofInt (if negative then -(n : Int) else n) := by
  rw [Yaml.readInt, h.hasLeadingZero, hz, String.toList_ofList, h.splitSign]
  rfl

/-- A numeral reads as the double that is nearest to it. -/
lemma IsNumeral.readFloat? (h : IsNumeral cs) :
    readFloat? (String.ofList (withSign negative cs)) =
      (decimal? negative cs).map .finite := by
  -- The texts of infinities and of what is no number start with a point, behind a
  -- minus at most.
  have hne : ∀ t : String, (t.toList.head? = some '.' ∨ t.toList.take 2 = ['-', '.']) →
      (String.ofList (withSign negative cs) == t) = false := by
    intro t ht
    rw [beq_eq_false_iff_ne]
    rintro rfl
    obtain ⟨c, rest, rfl, hc⟩ := h.head
    rw [String.toList_ofList] at ht
    have hpoint : c ≠ '.' := by rintro rfl; cases hc
    have hminus : c ≠ '-' := by rintro rfl; cases hc
    cases negative with
    | false =>
      rcases ht with ht | ht
      · exact hpoint (Option.some.inj ht)
      · exact hminus (List.cons.inj ht).1
    | true =>
      rcases ht with ht | ht
      · cases ht
      · exact hpoint (List.cons.inj (List.cons.inj ht).2).1
  unfold Yaml.readFloat?
  rw [String.toList_ofList, h.behindPlus?]
  dsimp only
  simp only [hne ".inf" (by decide), hne ".Inf" (by decide), hne ".INF" (by decide),
    hne "-.inf" (by decide), hne "-.Inf" (by decide), hne "-.INF" (by decide),
    hne ".nan" (by decide), hne ".NaN" (by decide), hne ".NAN" (by decide)]
  rw [h.splitSign]
  rfl

/-- A numeral with a character that is no digit is no integer. -/
lemma IsNumeral.magnitude?_eq_none (h : IsNumeral cs) {c : Char} (hc : c ∈ cs)
    (hnot : c = '.' ∨ c = 'e') :
    magnitude? cs = none := by
  have hadd : ∀ acc, Text.addDigit 10 acc c = none := by
    intro acc
    rcases hnot with rfl | rfl <;> rfl
  have hchar : ∀ {d : Char} {rest : List Char}, cs = '0' :: d :: rest →
      isNumberChar d = true := fun heq =>
    h.chars _ (by rw [heq]; simp)
  unfold magnitude?
  split
  · exact absurd (hchar rfl) (by decide)
  · exact absurd (hchar rfl) (by decide)
  · exact absurd (hchar rfl) (by decide)
  · exact Text.natOfDigits?_eq_none hc hadd

lemma isZeroFilled_eq_false {c : Char} (hc : c ∈ cs) (hnot : c = '.' ∨ c = 'e') :
    isZeroFilled cs = false := by
  unfold isZeroFilled
  split
  · next rest =>
    rw [Bool.and_eq_false_iff]
    right
    rw [List.all_eq_false]
    refine ⟨c, ?_, ?_⟩
    · rcases List.mem_cons.mp hc with rfl | hc
      · rcases hnot with hnot | hnot <;> cases hnot
      · exact hc
    · rcases hnot with rfl | rfl <;> decide
  · rfl

/-- A numeral with a character that is no digit is the double that it reads as. -/
lemma IsNumeral.resolve_double (h : IsNumeral cs) {c : Char} (hc : c ∈ cs)
    (hnot : c = '.' ∨ c = 'e') {d : Double} (hread : decimal? negative cs = some d) :
    resolve (String.ofList (withSign negative cs)) = .ok (.float (.finite d)) := by
  have hz := isZeroFilled_eq_false hc hnot
  have hint : Yaml.readInt (String.ofList (withSign negative cs)) = .notInt := by
    rw [h.readInt hz, h.magnitude?_eq_none hc hnot]
  unfold resolve
  rw [h.not_isEmpty, h.not_isNull, h.readBool?, hint, h.hasLeadingZero, hz,
    h.readFloat?, hread]
  rfl

/-- A numeral of digits is the integer that it reads as. -/
theorem IsNumeral.resolve_int (h : IsNumeral cs) (hz : isZeroFilled cs = false) {n : Nat}
    (hread : magnitude? cs = some n) {w : WordInt}
    (hw : w.val = if negative then -(n : Int) else n) :
    resolve (String.ofList (withSign negative cs)) = .ok (.int w) := by
  have hof : WordInt.ofInt? w.val = some w := dif_pos ⟨w.lower, w.upper⟩
  have hint : Yaml.readInt (String.ofList (withSign negative cs)) = .word w := by
    rw [h.readInt hz, hread]
    show IntReading.ofInt (if negative then -(n : Int) else n) = .word w
    rw [← hw, IntReading.ofInt, hof]
  unfold resolve
  rw [h.not_isEmpty, h.not_isNull, h.readBool?, hint]
  rfl

end

/-! ## Integers -/

/-- Digits are a numeral. -/
theorem isNumeral_toDigits (n : Nat) : IsNumeral (Nat.toDigits 10 n) := by
  have hdigits := isDigit_of_mem_toDigits (n := n)
  refine ⟨fun c hc => ?_, ?_⟩
  · rw [isNumberChar, hdigits c hc]
    rfl
  · cases hds : Nat.toDigits 10 n with
    | nil => exact absurd hds Nat.toDigits_ne_nil
    | cons c rest => exact ⟨c, rest, rfl, hdigits c (by rw [hds]; exact List.mem_cons_self)⟩

lemma magnitude?_toDigits (n : Nat) : magnitude? (Nat.toDigits 10 n) = some n := by
  have hdigits := isDigit_of_mem_toDigits (n := n)
  unfold magnitude?
  split
  · next heq => rw [heq] at hdigits; exact absurd (hdigits 'x' (by simp)) (by decide)
  · next heq => rw [heq] at hdigits; exact absurd (hdigits 'o' (by simp)) (by decide)
  · next heq => rw [heq] at hdigits; exact absurd (hdigits 'b' (by simp)) (by decide)
  · exact Text.natOfDigits?_toDigits n

lemma isZeroFilled_toDigits (n : Nat) : isZeroFilled (Nat.toDigits 10 n) = false := by
  unfold isZeroFilled
  split
  · next rest heq => rw [Text.toDigits_eq_zero_cons heq]; rfl
  · rfl

/-- The text of an integer: its digits, behind a minus sign if it is negative. -/
theorem toString_int (n : Int) :
    toString n = String.ofList (withSign (decide (n < 0)) (Nat.toDigits 10 n.natAbs)) := by
  cases n with
  | ofNat m =>
    show Nat.repr m = String.ofList (withSign (decide ((m : Int) < 0)) (Nat.toDigits 10 m))
    rw [decide_eq_false (by omega), Nat.repr_eq_ofList_toDigits]
    rfl
  | negSucc m =>
    show "-" ++ Nat.repr (m + 1) = String.ofList
      (withSign (decide (Int.negSucc m < 0)) (Nat.toDigits 10 (m + 1)))
    rw [decide_eq_true (Int.negSucc_lt_zero m), Nat.repr_eq_ofList_toDigits,
      ← String.toList_inj, String.toList_append, String.toList_ofList]
    simp only [withSign, if_true, String.toList_ofList]
    rfl

/-- The text of an integer reads back as that integer. -/
theorem resolve_int (n : WordInt) : resolve (toString n.val) = .ok (.int n) := by
  rw [toString_int]
  refine (isNumeral_toDigits _).resolve_int (isZeroFilled_toDigits _)
    (magnitude?_toDigits _) ?_
  by_cases hneg : n.val < 0
  · rw [if_pos (decide_eq_true hneg)]
    omega
  · rw [if_neg (by simpa using hneg)]
    omega

/-! ## Doubles -/

lemma isNumberChar_of_mem_append {cs ds : List Char} (hcs : ∀ c ∈ cs, isNumberChar c = true)
    (hds : ∀ c ∈ ds, isNumberChar c = true) :
    ∀ c ∈ cs ++ ds, isNumberChar c = true := fun c hc =>
  (List.mem_append.mp hc).elim (hcs c) (hds c)

lemma isNumberChar_of_isDigit {cs : List Char} (h : ∀ c ∈ cs, c.isDigit = true) :
    ∀ c ∈ cs, isNumberChar c = true := fun c hc => by
  rw [isNumberChar, h c hc]
  rfl

/-- A decimal number is a numeral with a point when it is written out. -/
theorem isNumeral_positional (d : Decimal) :
    IsNumeral d.positional ∧ '.' ∈ d.positional := by
  obtain ⟨whole, fraction, hpositional, hpointed⟩ := positional_pointed d
  obtain ⟨c, rest, rfl⟩ := List.exists_cons_of_ne_nil hpointed.ne_nil
  rw [hpositional]
  refine ⟨⟨isNumberChar_of_mem_append (isNumberChar_of_isDigit hpointed.whole_digits) ?_,
    c, _, rfl, hpointed.whole_digits c List.mem_cons_self⟩, by simp⟩
  rw [List.forall_mem_cons]
  exact ⟨by decide, isNumberChar_of_isDigit hpointed.fraction_digits⟩

/-- It is a numeral with an exponent in scientific form. -/
theorem isNumeral_scientific (d : Decimal) :
    IsNumeral (d.scientific false) ∧ 'e' ∈ d.scientific false := by
  have hdigits := isDigit_of_mem_toDigits (n := d.digits)
  unfold Decimal.scientific
  dsimp only
  rw [if_neg (by decide : ¬ false = true)]
  generalize ((Nat.toDigits 10 d.digits).length : Int) + d.exponent - 1 = order
  have hexponent : ∀ c ∈ 'e' ::
      ((if order < 0 then ['-'] else []) ++ Nat.toDigits 10 order.natAbs),
      isNumberChar c = true := by
    rw [List.forall_mem_cons]
    refine ⟨by decide,
      isNumberChar_of_mem_append ?_ (isNumberChar_of_isDigit isDigit_of_mem_toDigits)⟩
    split
    · exact List.forall_mem_singleton.mpr rfl
    · exact fun c hc => absurd hc List.not_mem_nil
  cases hds : Nat.toDigits 10 d.digits with
  | nil => exact absurd hds Nat.toDigits_ne_nil
  | cons c more =>
    rw [hds, List.forall_mem_cons] at hdigits
    have hc : isNumberChar c = true := by
      rw [isNumberChar, hdigits.1]
      rfl
    cases more with
    | nil =>
      refine ⟨⟨?_, c, _, rfl, hdigits.1⟩, by simp⟩
      exact isNumberChar_of_mem_append (by simpa using hc) hexponent
    | cons c' more =>
      refine ⟨⟨?_, c, _, rfl, hdigits.1⟩, by simp⟩
      refine isNumberChar_of_mem_append ?_ hexponent
      rw [List.forall_mem_cons, List.forall_mem_cons]
      exact ⟨hc, by decide, isNumberChar_of_isDigit hdigits.2⟩

/-- The text of a double: a numeral with a point or an exponent, which reads as
the double. -/
theorem text_eq (d : Double) :
    ∃ cs, Double.text false d = String.ofList (withSign d.negative cs) ∧ IsNumeral cs ∧
      (∃ c ∈ cs, c = '.' ∨ c = 'e') ∧ decimal? d.negative cs = some d := by
  unfold Double.text
  -- Zero has no digits to be written with, and a text of its own for each sign.
  by_cases hzero : d.magnitude = 0
  · rw [if_pos hzero]
    refine ⟨['0', '.', '0'], rfl, ⟨List.all_eq_true.mp (by decide), '0', _, rfl,
      by decide⟩, ⟨'.', by simp, Or.inl rfl⟩, ?_⟩
    obtain ⟨negative, magnitude, hfinite⟩ := d
    obtain rfl : magnitude = 0 := hzero
    cases negative with
    | false => exact (by decide : decimal? false ['0', '.', '0'] = some (Double.zero false))
    | true => exact (by decide : decimal? true ['0', '.', '0'] = some (Double.zero true))
  · rw [if_neg hzero]
    obtain ⟨hdigits, x, hx, hmagnitude⟩ := Double.shortest_means hzero d.isFinite
    generalize Double.shortest d.magnitude = short at hdigits hx
    have hread := Double.ofDecimal?_eq_some d.negative hx
    have hd : (⟨d.negative, x.magnitude, x.isFinite⟩ : Double) = d := by
      obtain ⟨negative, magnitude, hfinite⟩ := d
      obtain rfl : x.magnitude = magnitude := hmagnitude
      rfl
    rw [hd] at hread
    dsimp only
    split
    · obtain ⟨hnumeral, hmem⟩ := isNumeral_positional short
      exact ⟨_, rfl, hnumeral, ⟨'.', hmem, Or.inl rfl⟩,
        by rw [decimal?_positional hdigits, hread]⟩
    · obtain ⟨hnumeral, hmem⟩ := isNumeral_scientific short
      exact ⟨_, rfl, hnumeral, ⟨'e', hmem, Or.inr rfl⟩, by rw [decimal?_scientific, hread]⟩

/-- The text of a double reads back as that double. -/
theorem resolve_text (d : Double) :
    resolve (Double.text false d) = .ok (.float (.finite d)) := by
  obtain ⟨cs, hcs, hnumeral, ⟨c, hc, hnot⟩, hread⟩ := text_eq d
  rw [hcs]
  exact hnumeral.resolve_double hc hnot hread

end Workplan.Yaml
