import Mathlib.Tactic.Lemma
import Workplan.Proofs.Toml.Texts

/-!
# Numbers, dates and times

The reader agrees with the grammar on values that start with a digit or a sign.  What
may stand behind a value (`Ends`) continues none of them, and the first characters tell
dates and times from numbers.
-/

namespace Workplan.Toml.Grammar

open Reader

/-! ## Ends of values -/

/-- The characters that may stand right behind a value. -/
def breakers : List Char :=
  [' ', '\t', '#', '\n', '\r', ',', ']', '\x7d']

/-- What may stand behind a value: blanks, and then nothing, a comment, a line break, or
what goes on in an array or a table. -/
def Ends (rest : List Char) : Prop :=
  ∀ c ∈ (skipGap rest).head?, c ∈ ['#', '\n', '\r', ',', ']', '\x7d']

section
variable {cs rest : List Char}

/-- A gap may stand between a value and its end. -/
theorem ends_of_gap (h : Gap cs rest)
    (hrest : ∀ c ∈ rest.head?, c ∈ ['#', '\n', '\r', ',', ']', '\x7d']) : Ends cs := by
  have hgap : ∀ c ∈ rest.head?, isGap c = false := fun c hc =>
    (by decide : ∀ c ∈ ['#', '\n', '\r', ',', ']', '\x7d'], isGap c = false) c
      (hrest c hc)
  rw [Ends, h.skipGap_eq, skipGap_eq_self hgap]
  exact hrest

/-- Right behind a value there is a blank, or its end itself. -/
lemma Ends.head (h : Ends rest) : ∀ c ∈ rest.head?, c ∈ breakers := by
  intro c hc
  cases rest with
  | nil => cases hc
  | cons c' more =>
    cases hc
    cases hgap : isGap c with
    | true =>
      rw [isGap, Bool.or_eq_true, beq_iff_eq, beq_iff_eq] at hgap
      rcases hgap with rfl | rfl <;> decide
    -- Without a gap in front, the end itself is what stands first.
    | false =>
      have hself : skipGap (c :: more) = c :: more := skipGap_eq_self fun c' hc' => by
        cases hc'; exact hgap
      have hmem := h c (by rw [hself]; rfl)
      exact (by decide : ∀ c ∈ ['#', '\n', '\r', ',', ']', '\x7d'], c ∈ breakers) c hmem

/-- What may stand behind a value is of no kind that continues it. -/
theorem Ends.not (h : Ends rest) {p : Char → Bool} (hp : ∀ c ∈ breakers, p c = false) :
    ∀ c ∈ rest.head?, p c = false := fun c hc => hp c (h.head c hc)

theorem Ends.not_quote (h : Ends rest) : ∀ c ∈ rest.head?, ¬ IsQuote c := by
  intro c hc hquote
  have hnot := h.not (p := fun c => c == '"' || c == '\'') (by decide) c hc
  rcases hquote with rfl | rfl <;> cases hnot

end

/-! ## Digits -/

section
variable {isDigit : Char → Bool} {cs ds rest : List Char}

/-- Whether two underscores stand next to each other. -/
def hasTwin (body : List Char) : Bool :=
  (body.zip (body.drop 1)).any fun (a, b) => a == '_' && b == '_'

/-- Digits with single underscores between them, as the reader finds them. -/
structure Spaced (isDigit : Char → Bool) (body ds : List Char) : Prop where
  chars : ∀ c ∈ body, (isDigit c || c == '_') = true
  first : body.head?.any isDigit = true
  last : body.getLast?.any isDigit = true
  apart : hasTwin body = false
  digits : body.filter (· != '_') = ds

lemma hasTwin_cons_cons (c d : Char) (body : List Char) :
    hasTwin (c :: d :: body) = ((c == '_' && d == '_') || hasTwin (d :: body)) := rfl

section
variable (hunder : isDigit '_' = false)
include hunder

lemma digit_ne_underscore {c : Char} (hc : isDigit c = true) : (c == '_') = false := by
  rw [beq_eq_false_iff_ne]
  rintro rfl
  rw [hunder] at hc
  cases hc

lemma filter_digit {c : Char} (hc : isDigit c = true) (body : List Char) :
    (c :: body).filter (· != '_') = c :: body.filter (· != '_') := by
  refine List.filter_cons_of_pos ?_
  rw [bne, digit_ne_underscore hunder hc]
  rfl

/-- Digits with underscores between them are read to their end. -/
lemma Spaced.written {body : List Char} (h : Spaced isDigit body ds)
    (rest : List Char) :
    Digits isDigit (body ++ rest) ds rest := by
  -- By the number of characters, since an underscore is taken together with the digit
  -- in front of it.
  induction hn : body.length using Nat.strongRecOn generalizing body ds with
  | ind n ih =>
    obtain ⟨hchars, hfirst, hlast, hapart, rfl⟩ := h
    cases body with
    | nil => cases hfirst
    | cons c body =>
      have hc : isDigit c = true := hfirst
      rw [List.forall_mem_cons] at hchars
      rw [filter_digit hunder hc]
      cases body with
      | nil => exact .last hc
      | cons d body =>
        rw [hasTwin_cons_cons, Bool.or_eq_false_iff] at hapart
        rw [List.getLast?_cons_cons] at hlast
        by_cases hd : isDigit d = true
        · refine .next hc (ih _ ?_ ⟨hchars.2, hd, hlast, hapart.2, rfl⟩ rfl)
          rw [← hn]
          exact Nat.lt_succ_self _
        · rw [List.forall_mem_cons] at hchars
          obtain rfl : d = '_' := by
            have hd' := hchars.2.1
            rwa [Bool.eq_false_iff.mpr hd, Bool.false_or, beq_iff_eq] at hd'
          cases body with
          | nil =>
            -- The last character is a digit.
            exact absurd hlast hd
          | cons e body =>
            rw [hasTwin_cons_cons, Bool.or_eq_false_iff] at hapart
            rw [List.getLast?_cons_cons] at hlast
            have he : isDigit e = true := by
              have he' := hchars.2.2 e List.mem_cons_self
              rw [Bool.or_eq_true, beq_iff_eq] at he'
              refine he'.resolve_right ?_
              rintro rfl
              cases hapart.2.1
            refine .spaced hc (ih _ ?_ ⟨hchars.2.2, he, hlast, hapart.2.2, rfl⟩ rfl)
            rw [← hn]
            exact Nat.lt_succ_of_lt (Nat.lt_succ_self _)

/-- One more digit may stand in front of spaced digits. -/
lemma Spaced.cons {c : Char} {body : List Char} (hc : isDigit c = true)
    (h : Spaced isDigit body ds) :
    Spaced isDigit (c :: body) (c :: ds) := by
  obtain ⟨hchars, hfirst, hlast, hapart, rfl⟩ := h
  cases body with
  | nil => cases hfirst
  | cons d body =>
    refine ⟨?_, hc, ?_, ?_, filter_digit hunder hc _⟩
    · rw [List.forall_mem_cons, hc]
      exact ⟨rfl, hchars⟩
    · rw [List.getLast?_cons_cons]
      exact hlast
    · rw [hasTwin_cons_cons, hapart, digit_ne_underscore hunder hc]
      rfl

lemma Spaced.cons_underscore {c : Char} {body : List Char} (hc : isDigit c = true)
    (h : Spaced isDigit body ds) :
    Spaced isDigit (c :: '_' :: body) (c :: ds) := by
  obtain ⟨hchars, hfirst, hlast, hapart, rfl⟩ := h
  cases body with
  | nil => cases hfirst
  | cons d body =>
    refine ⟨?_, hc, ?_, ?_, filter_digit hunder hc _⟩
    · rw [List.forall_mem_cons, List.forall_mem_cons, hc]
      exact ⟨rfl, Bool.or_true _, hchars⟩
    · rw [List.getLast?_cons_cons, List.getLast?_cons_cons]
      exact hlast
    · rw [hasTwin_cons_cons, hasTwin_cons_cons, hapart, digit_ne_underscore hunder hc,
        digit_ne_underscore hunder hfirst]
      rfl

/-- The digits that the grammar allows are spaced, up to where they end. -/
lemma Digits.spaced_body (h : Digits isDigit cs ds rest) :
    ∃ body, cs = body ++ rest ∧ Spaced isDigit body ds := by
  induction h with
  | @last c rest hc =>
    refine ⟨[c], rfl, ⟨?_, hc, hc, rfl, filter_digit hunder hc []⟩⟩
    rw [List.forall_mem_singleton, hc]
    rfl
  | next hc _ ih =>
    obtain ⟨body, rfl, hbody⟩ := ih
    exact ⟨_, rfl, hbody.cons hunder hc⟩
  | spaced hc _ ih =>
    obtain ⟨body, rfl, hbody⟩ := ih
    exact ⟨_, rfl, hbody.cons_underscore hunder hc⟩

/-- What the reader takes for digits are digits by the grammar. -/
lemma digits_sound (h : digits isDigit cs = some (ds, rest)) :
    Digits isDigit cs ds rest := by
  have hrun := run_takeWhile (fun c => isDigit c || c == '_') cs
  unfold digits at h
  dsimp only at h
  split at h
  · next hcheck =>
    rw [Bool.and_eq_true, Bool.and_eq_true, Bool.not_eq_true'] at hcheck
    cases h
    have hspaced : Spaced isDigit (cs.takeWhile fun c => isDigit c || c == '_') _ :=
      ⟨hrun.2, hcheck.1.1, hcheck.1.2, hcheck.2, rfl⟩
    have hwritten :=
      hspaced.written hunder (cs.dropWhile fun c => isDigit c || c == '_')
    rwa [← hrun.1, ← hrun.drop_eq] at hwritten
  · cases h

/-- The digits of the grammar are read to their end, if nothing that continues them
follows. -/
lemma Digits.digits_eq (h : Digits isDigit cs ds rest)
    (hrest : ∀ c ∈ rest.head?, (isDigit c || c == '_') = false) :
    digits isDigit cs = some (ds, rest) := by
  obtain ⟨body, hcs, hspaced⟩ := h.spaced_body hunder
  have hrun : Run (fun c => isDigit c || c == '_') cs body rest := ⟨hcs, hspaced.chars⟩
  unfold digits
  dsimp only
  rw [hrun.takeWhile_eq hrest, hrun.drop_eq, hspaced.digits, if_pos]
  rw [Bool.and_eq_true, Bool.and_eq_true, Bool.not_eq_true']
  exact ⟨⟨hspaced.first, hspaced.last⟩, hspaced.apart⟩

end

lemma Digits.length_lt (h : Digits isDigit cs ds rest) : rest.length < cs.length := by
  induction h with
  | last => exact Nat.lt_succ_self _
  | next _ _ ih => exact Nat.lt_succ_of_lt ih
  | spaced _ _ ih => exact Nat.lt_succ_of_lt (Nat.lt_succ_of_lt ih)

/-- Digits begin with a digit and not with an underscore. -/
theorem Digits.head (h : Digits isDigit cs ds rest) :
    ∃ c more, cs = c :: more ∧ isDigit c = true := by
  cases h with
  | last hc => exact ⟨_, _, rfl, hc⟩
  | next hc => exact ⟨_, _, rfl, hc⟩
  | spaced hc => exact ⟨_, _, rfl, hc⟩

end

/-! ## Numbers -/

/-- The digits behind a point, or none, as the reader finds them. -/
inductive OptionalFraction : List Char → Option (List Char) → List Char → Prop
  | absent {rest} : (∀ c ∈ rest.head?, c ≠ '.') → OptionalFraction rest none rest
  | present {cs ds rest} : Fraction cs ds rest → OptionalFraction cs (some ds) rest

section
variable {cs cs₁ cs₂ ds rest : List Char} {negative : Bool} {item : Item}

lemma Sign.length_le (h : Sign cs negative rest) : rest.length ≤ cs.length := by
  cases h with
  | none => exact Nat.le_refl _
  | plus => exact Nat.le_succ _
  | minus => exact Nat.le_succ _

/-- What continues no digits. -/
def EndsDigits (rest : List Char) : Prop :=
  ∀ c ∈ rest.head?, (c.isDigit || c == '_') = false

lemma Ends.endsDigits (h : Ends rest) : EndsDigits rest :=
  h.not (by decide)

/-- Decimal digits are read to their end. -/
lemma Digits.decimal_eq (h : Digits Char.isDigit cs ds rest) (hrest : EndsDigits rest) :
    digits Char.isDigit cs = some (ds, rest) :=
  h.digits_eq rfl hrest

/-- What is read behind the letter of an exponent is a sign, which may be missing, and
digits. -/
lemma order_sound {e : Int} (h : order cs = some (e, rest)) :
    ∃ negative cs₁ ds n, Sign cs negative cs₁ ∧ Digits Char.isDigit cs₁ ds rest ∧
      Workplan.Text.natOfDigits? 10 ds = some n ∧ e = withSign negative n := by
  -- The three branches differ in the sign only.
  have hdigits : ∀ {cs : List Char} (negative : Bool),
      ((digits Char.isDigit cs).bind fun x =>
        (Workplan.Text.natOfDigits? 10 x.1).bind fun n =>
        some (withSign negative n, x.2)) = some (e, rest) →
      ∃ ds n, Digits Char.isDigit cs ds rest ∧
        Workplan.Text.natOfDigits? 10 ds = some n ∧ e = withSign negative n := by
    intro cs negative h
    obtain ⟨⟨ds, rest'⟩, hds, h⟩ := Option.bind_eq_some_iff.mp h
    obtain ⟨n, hn, h⟩ := Option.bind_eq_some_iff.mp h
    cases h
    exact ⟨ds, n, digits_sound rfl hds, hn, rfl⟩
  unfold order at h
  split at h
  · obtain ⟨ds, n, hds, hn, he⟩ := hdigits true h
    exact ⟨true, _, ds, n, .minus, hds, hn, he⟩
  · obtain ⟨ds, n, hds, hn, he⟩ := hdigits false h
    exact ⟨false, _, ds, n, .plus, hds, hn, he⟩
  · obtain ⟨ds, n, hds, hn, he⟩ := hdigits false h
    exact ⟨false, _, ds, n, .none, hds, hn, he⟩

/-- A sign and digits behind the letter of an exponent are read as the exponent. -/
lemma order_eq {n : Nat} (hsign : Sign cs negative cs₁)
    (hds : Digits Char.isDigit cs₁ ds rest)
    (hn : Workplan.Text.natOfDigits? 10 ds = some n) (hrest : EndsDigits rest) :
    order cs = some (withSign negative n, rest) := by
  have hread : (digits Char.isDigit cs₁).bind
      (fun x => (Workplan.Text.natOfDigits? 10 x.1).bind fun n =>
      some (withSign negative n, x.2)) = some (withSign negative n, rest) := by
    rw [hds.decimal_eq hrest, Option.bind_some, hn]
    rfl
  cases hsign with
  | plus => exact hread
  | minus => exact hread
  | none =>
    -- A digit is no sign, so the first two branches are not taken.
    obtain ⟨c, more, rfl, hc⟩ := hds.head
    unfold order
    split
    · next heq => rw [(List.cons.inj heq).1] at hc; cases hc
    · next heq => rw [(List.cons.inj heq).1] at hc; cases hc
    · exact hread

/-- A number of 64 bits stands for the number that it is made from. -/
lemma ofInt?_eq_some_iff {n : Int} {w : WordInt} :
    WordInt.ofInt? n = some w ↔ w.val = n := by
  unfold WordInt.ofInt?
  constructor
  · intro h
    split at h
    · cases h; rfl
    · cases h
  · rintro rfl
    rw [dif_pos ⟨w.lower, w.upper⟩]

/-- An integer is read if it is the number of its digits and fits into 64 bits with
its sign. -/
lemma integer_eq_some_iff : integer negative ds = some item ↔
    ∃ (n : Nat) (w : WordInt), Workplan.Text.natOfDigits? 10 ds = some n ∧
      w.val = withSign negative n ∧
      w.val < 0x8000000000000000 ∧ item = .int w := by
  have hinteger : integer negative ds = (Workplan.Text.natOfDigits? 10 ds).bind fun n =>
      if withSign negative n < 0x8000000000000000 then
        (WordInt.ofInt? (withSign negative n)).bind fun w => some (Item.int w)
      else none := rfl
  rw [hinteger, Option.bind_eq_some_iff]
  refine exists_congr fun n => ?_
  -- Too small a negative number passes the bound and is refused by the word itself.
  by_cases hlt : withSign negative n < 0x8000000000000000
  · rw [if_pos hlt, Option.bind_eq_some_iff]
    constructor
    · rintro ⟨hn, w, hw, h⟩
      cases h
      rw [ofInt?_eq_some_iff] at hw
      exact ⟨w, hn, hw, hw ▸ hlt, rfl⟩
    · rintro ⟨w, hn, hw, -, rfl⟩
      exact ⟨hn, w, ofInt?_eq_some_iff.mpr hw, rfl⟩
  · rw [if_neg hlt]
    constructor
    · rintro ⟨-, h⟩
      cases h
    · rintro ⟨w, -, hw, hlt', -⟩
      exact absurd (hw ▸ hlt') hlt

/-- The reader finds a fraction only where the grammar has one. -/
lemma fraction?_sound {fraction : Option (List Char)}
    (h : fraction? cs = some (fraction, rest)) :
    OptionalFraction cs fraction rest := by
  unfold fraction? at h
  split at h
  · obtain ⟨⟨ds, rest'⟩, hds, heq⟩ := Option.map_eq_some_iff.mp h
    cases heq
    exact .present (.point (digits_sound rfl hds))
  · next hpoint =>
    cases h
    -- The branch was not taken, so no point stands first.
    refine .absent fun c hc hpoint' => ?_
    cases cs with
    | nil => cases hc
    | cons c' more =>
      cases hc
      exact hpoint more (by rw [hpoint'])

/-- A fraction of the grammar, or none, is what the reader finds. -/
lemma OptionalFraction.fraction?_eq {fraction : Option (List Char)}
    (h : OptionalFraction cs fraction rest) (hrest : EndsDigits rest) :
    fraction? cs = some (fraction, rest) := by
  cases h with
  | absent hpoint =>
    unfold fraction?
    split
    · exact absurd rfl (hpoint '.' rfl)
    · rfl
  | present hfraction =>
    cases hfraction with
    | point hds =>
      show (digits Char.isDigit _).map _ = _
      rw [hds.decimal_eq hrest]
      rfl

/-- Behind the whole part a decimal number goes on with its fraction and its
exponent. -/
lemma Whole.decimal_eq (h : Whole cs ds cs₁) {fraction : Option (List Char)}
    (hcs₁ : EndsDigits cs₁) (hfraction : OptionalFraction cs₁ fraction cs₂)
    (hcs₂ : EndsDigits cs₂) :
    decimal negative cs = decimalEnd negative ds fraction cs₂ := by
  unfold decimal
  rw [h.1.decimal_eq hcs₁]
  show (if (1 < ds.length && ds.head? == some '0') = true then none
    else (fraction? cs₁).bind fun x => decimalEnd negative ds x.1 x.2) = _
  rw [if_neg, hfraction.fraction?_eq hcs₂]
  · rfl
  · rw [Bool.and_eq_true, decide_eq_true_iff, beq_iff_eq]
    exact fun hzero => h.2 hzero.1 hzero.2

/-- A decimal number that is read is a number by the grammar, an integer or a
float. -/
lemma decimal_sound (hsign : Sign cs negative cs₁)
    (h : decimal negative cs₁ = some (item, rest)) :
    Number cs item rest := by
  obtain ⟨⟨whole, cs₂⟩, hds, h⟩ := Option.bind_eq_some_iff.mp h
  dsimp only at h
  split at h
  · cases h
  · next hzero =>
    rw [Bool.and_eq_true, decide_eq_true_iff, beq_iff_eq] at hzero
    have hwhole : Whole cs₁ whole cs₂ :=
      ⟨digits_sound rfl hds, fun hlong hhead => hzero ⟨hlong, hhead⟩⟩
    obtain ⟨⟨fraction, cs₃⟩, hfraction, h⟩ := Option.bind_eq_some_iff.mp h
    have hfraction := fraction?_sound hfraction
    -- The number goes on with an order of magnitude.
    have hexponent : ∀ {e : Char} {cs₄ : List Char}, cs₃ = e :: cs₄ →
        e = 'e' ∨ e = 'E' →
        ((order cs₄).bind fun x =>
          (float negative (whole ++ fraction.getD [])
            (x.1 - (fraction.getD []).length)).bind
          fun item => some (item, x.2)) = some (item, rest) → Number cs item rest := by
      intro e cs₄ hcs₃ he h
      obtain ⟨⟨e', rest'⟩, horder, h⟩ := Option.bind_eq_some_iff.mp h
      obtain ⟨item', hfloat, h⟩ := Option.bind_eq_some_iff.mp h
      cases h
      obtain ⟨negative', cs₅, ds, n, hsign', hds', hn, rfl⟩ := order_sound horder
      have hexponent : Exponent cs₃ (withSign negative' n) rest' :=
        hcs₃ ▸ .letter he hsign' hds' hn
      cases hfraction with
      | absent =>
        refine .exponent hsign hwhole hexponent ?_
        simpa using hfloat
      | present hfraction =>
        exact .fractionExponent hsign hwhole hfraction hexponent hfloat
    unfold decimalEnd at h
    dsimp only at h
    split at h
    · exact hexponent rfl (Or.inl rfl) h
    · exact hexponent rfl (Or.inr rfl) h
    · obtain ⟨item', hitem, heq⟩ := Option.map_eq_some_iff.mp h
      cases heq
      cases hfraction with
      | absent =>
        obtain ⟨n, w, hn, hw, hlt, rfl⟩ := integer_eq_some_iff.mp hitem
        exact .decimal hsign hwhole hn hw hlt
      | present hfraction => exact .fraction hsign hwhole hfraction hitem

/-- What may stand behind the whole part of a number. -/
def EndsWhole (rest : List Char) : Prop :=
  ∀ c ∈ rest.head?, c ∈ '.' :: 'e' :: 'E' :: breakers

/-- The end of a value is an end of the whole part of a number. -/
lemma Ends.endsWhole (h : Ends rest) : EndsWhole rest := fun c hc =>
  List.mem_cons_of_mem _ (List.mem_cons_of_mem _ (List.mem_cons_of_mem _ (h.head c hc)))

lemma EndsWhole.not (h : EndsWhole rest) {p : Char → Bool}
    (hp : ∀ c ∈ '.' :: 'e' :: 'E' :: breakers, p c = false) :
    ∀ c ∈ rest.head?, p c = false := fun c hc => hp c (h c hc)

theorem EndsWhole.endsDigits (h : EndsWhole rest) : EndsDigits rest :=
  h.not (by decide)

/-- A fraction ends the whole part in front of it, by its point. -/
lemma Fraction.endsWhole {fs : List Char} (h : Fraction cs fs rest) : EndsWhole cs := by
  cases h with
  | point =>
    intro c hc
    cases hc
    decide

lemma Exponent.endsWhole {e : Int} (h : Exponent cs e rest) : EndsWhole cs := by
  cases h with
  | letter he =>
    intro c hc
    cases hc
    rcases he with rfl | rfl <;> decide

lemma Ends.not_point (h : Ends rest) : ∀ c ∈ rest.head?, c ≠ '.' := fun c hc =>
  beq_eq_false_iff_ne.mp (h.not (p := (· == '.')) (by decide) c hc)

/-- An exponent does not begin with a point, so that a whole part in front of it has
no fraction. -/
lemma Exponent.not_point {e : Int} (h : Exponent cs e rest) :
    ∀ c ∈ cs.head?, c ≠ '.' := by
  cases h with
  | letter he =>
    intro c hc
    cases hc
    rcases he with rfl | rfl <;> decide

/-- A number without an order of magnitude ends where the value ends. -/
lemma Ends.decimalEnd_eq (h : Ends rest) (fraction : Option (List Char)) :
    decimalEnd negative ds fraction rest =
      (if fraction.isSome then
        float negative (ds ++ fraction.getD []) (-((fraction.getD []).length : Int))
      else integer negative ds).map (·, rest) := by
  have hnot := h.not (p := fun c => c == 'e' || c == 'E') (by decide)
  unfold decimalEnd
  split
  · cases hnot 'e' rfl
  · cases hnot 'E' rfl
  · rfl

lemma decimalEnd_letter {e : Char} (he : e = 'e' ∨ e = 'E')
    (fraction : Option (List Char)) (cs : List Char) :
    decimalEnd negative ds fraction (e :: cs) = (order cs).bind fun x =>
      (float negative (ds ++ fraction.getD []) (x.1 - (fraction.getD []).length)).bind
        fun item => some (item, x.2) := by
  rcases he with rfl | rfl <;> rfl

/-- The exponent of the grammar is read, and makes the number a float. -/
lemma Exponent.decimalEnd_eq {e : Int} (h : Exponent cs e rest) (hrest : Ends rest)
    (fraction : Option (List Char)) :
    decimalEnd negative ds fraction cs =
      (float negative (ds ++ fraction.getD []) (e - (fraction.getD []).length)).bind
        fun item => some (item, rest) := by
  cases h with
  | letter he hsign hds hn =>
    rw [decimalEnd_letter he, order_eq hsign hds hn hrest.endsDigits]
    rfl

/-- A number in another base is read if it is the number of its digits and fits into
64 bits. -/
lemma based_eq_some_iff {base : Nat} {isDigit : Char → Bool} :
    based base isDigit cs = some (item, rest) ↔
    ∃ (ds : List Char) (n : Nat) (w : WordInt), digits isDigit cs = some (ds, rest) ∧
      Workplan.Text.natOfDigits? base ds = some n ∧ w.val = n ∧
      w.val < 0x8000000000000000 ∧ item = .int w := by
  have hbased : based base isDigit cs = (digits isDigit cs).bind fun x =>
      (Workplan.Text.natOfDigits? base x.1).bind fun n =>
        if n < 0x8000000000000000 then (WordInt.ofInt? n).bind fun w =>
          some (Item.int w, x.2) else none := rfl
  rw [hbased]
  constructor
  · intro h
    obtain ⟨⟨ds, rest'⟩, hds, h⟩ := Option.bind_eq_some_iff.mp h
    obtain ⟨n, hn, h⟩ := Option.bind_eq_some_iff.mp h
    split at h
    · next hlt =>
      obtain ⟨w, hw, h⟩ := Option.bind_eq_some_iff.mp h
      cases h
      rw [ofInt?_eq_some_iff] at hw
      exact ⟨ds, n, w, hds, hn, hw, by omega, rfl⟩
    · cases h
  · rintro ⟨ds, n, w, hds, hn, hw, hlt, rfl⟩
    rw [hds, Option.bind_some, hn, Option.bind_some, if_pos (by omega), ← hw,
      ofInt?_eq_some_iff.mpr rfl]
    rfl

/-- The forms of a number: decimal notation, notation in another base, and the
special numbers. -/
theorem Number.form (h : Number cs item rest) (hrest : Ends rest) :
    (∃ negative cs₁ ds cs₂, Sign cs negative cs₁ ∧ Whole cs₁ ds cs₂ ∧ EndsWhole cs₂ ∧
      Reader.decimal negative cs₁ = some (item, rest)) ∨
    (∃ letter base isDigit cs₁, cs = '0' :: letter :: cs₁ ∧ Base letter base isDigit ∧
      Reader.based base isDigit cs₁ = some (item, rest)) ∨
    (∃ negative, Sign cs negative ('i' :: 'n' :: 'f' :: rest) ∧
      item = .float (.infinite negative)) ∨
    (∃ negative, Sign cs negative ('n' :: 'a' :: 'n' :: rest) ∧
      item = .float .nan) := by
  cases h with
  | @decimal _ cs₁ negative ds n _ w hsign hwhole hn hw hlt =>
    refine Or.inl ⟨negative, cs₁, ds, rest, hsign, hwhole, hrest.endsWhole, ?_⟩
    rw [hwhole.decimal_eq hrest.endsDigits (.absent hrest.not_point) hrest.endsDigits,
      hrest.decimalEnd_eq]
    show (integer negative ds).map _ = _
    rw [integer_eq_some_iff.mpr ⟨n, w, hn, hw, hlt, rfl⟩]
    rfl
  | @based letter base isDigit cs₁ ds _ n w hbase hds hn hw hlt =>
    refine Or.inr (Or.inl ⟨letter, base, isDigit, cs₁, rfl, hbase, ?_⟩)
    have hread : digits isDigit cs₁ = some (ds, rest) := by
      cases hbase with
      | hexadecimal => exact hds.digits_eq rfl (hrest.not (by decide))
      | octal => exact hds.digits_eq rfl (hrest.not (by decide))
      | binary => exact hds.digits_eq rfl (hrest.not (by decide))
    exact based_eq_some_iff.mpr ⟨ds, n, w, hread, hn, hw, hlt, rfl⟩
  | @fraction _ cs₁ cs₂ negative ds fs _ _ hsign hwhole hfraction hfloat =>
    refine Or.inl ⟨negative, cs₁, ds, cs₂, hsign, hwhole, hfraction.endsWhole, ?_⟩
    rw [hwhole.decimal_eq hfraction.endsWhole.endsDigits
      (.present hfraction) hrest.endsDigits, hrest.decimalEnd_eq]
    show (float negative (ds ++ fs) (-(fs.length : Int))).map _ = _
    rw [hfloat]
    rfl
  | @exponent _ cs₁ cs₂ negative ds e _ _ hsign hwhole hexponent hfloat =>
    refine Or.inl ⟨negative, cs₁, ds, cs₂, hsign, hwhole, hexponent.endsWhole, ?_⟩
    rw [hwhole.decimal_eq hexponent.endsWhole.endsDigits
      (.absent hexponent.not_point) hexponent.endsWhole.endsDigits,
      hexponent.decimalEnd_eq hrest]
    show (float negative (ds ++ []) (e - (0 : Nat))).bind _ = _
    rw [List.append_nil, Int.natCast_zero, Int.sub_zero, hfloat]
    rfl
  | @fractionExponent _ cs₁ cs₂ cs₃ negative ds fs e _ _ hsign hwhole hfraction hexponent
      hfloat =>
    refine Or.inl ⟨negative, cs₁, ds, cs₂, hsign, hwhole, hfraction.endsWhole, ?_⟩
    rw [hwhole.decimal_eq hfraction.endsWhole.endsDigits
      (.present hfraction) hexponent.endsWhole.endsDigits, hexponent.decimalEnd_eq hrest]
    show (float negative (ds ++ fs) (e - fs.length)).bind _ = _
    rw [hfloat]
    rfl
  | infinite hsign => exact Or.inr (Or.inr (Or.inl ⟨_, hsign, rfl⟩))
  | nan hsign => exact Or.inr (Or.inr (Or.inr ⟨_, hsign, rfl⟩))

/-- The letters behind a zero that start a number in another base. -/
def baseLetters : List Char :=
  ['x', 'o', 'b']

/-- What stands behind the first digit. -/
lemma Digits.second {isDigit : Char → Bool} {c : Char}
    (h : Digits isDigit (c :: cs) ds rest) :
    ∀ c' ∈ cs.head?, isDigit c' = true ∨ c' = '_' ∨ c' ∈ rest.head? := by
  intro c' hc'
  cases h with
  | last => exact Or.inr (Or.inr hc')
  | next _ hds =>
    obtain ⟨d, more, rfl, hd⟩ := hds.head
    cases hc'
    exact Or.inl hd
  | spaced => cases hc'; exact Or.inr (Or.inl rfl)

/-- A whole part is not read as a number in another base: no letter of a base follows
its zero. -/
lemma Whole.not_based (h : Whole cs ds cs₁) (hcs₁ : EndsWhole cs₁) {letter : Char}
    (hletter : letter ∈ baseLetters) (more : List Char) :
    cs ≠ '0' :: letter :: more := by
  rintro rfl
  rcases h.1.second letter rfl with hdigit | rfl | hmem
  · revert hdigit
    exact Bool.eq_false_iff.mp
      ((by decide : ∀ c ∈ baseLetters, c.isDigit = false) letter hletter)
  · revert hletter
    decide
  · exact (by decide : ∀ c ∈ baseLetters, ¬ c ∈ '.' :: 'e' :: 'E' :: breakers) letter
      hletter (hcs₁ letter hmem)

/-- A number with its sign, if it is not in another base. -/
lemma number_eq_signed (hsign : Sign cs negative cs₁)
    (hhead : ∃ c more, cs₁ = c :: more ∧ (c.isDigit = true ∨ c = 'i' ∨ c = 'n'))
    (hbase : ∀ letter ∈ baseLetters, ∀ more, cs₁ ≠ '0' :: letter :: more) :
    number cs = signed negative cs₁ := by
  cases hsign with
  | plus => rfl
  | minus => rfl
  | none =>
    obtain ⟨c, more, rfl, hc⟩ := hhead
    -- Neither a sign nor the letter of a base stands first, so the last branch is
    -- taken.
    unfold number
    split
    · next heq => exact absurd heq (hbase 'x' (by decide) _)
    · next heq => exact absurd heq (hbase 'o' (by decide) _)
    · next heq => exact absurd heq (hbase 'b' (by decide) _)
    · next heq => rw [(List.cons.inj heq).1] at hc; exact absurd hc (by decide)
    · next heq => rw [(List.cons.inj heq).1] at hc; exact absurd hc (by decide)
    · rfl

/-- What begins with a digit is neither infinite nor undefined. -/
lemma signed_eq_decimal {c : Char} (hc : c.isDigit = true) (more : List Char) :
    signed negative (c :: more) = decimal negative (c :: more) := by
  unfold signed
  split
  · next heq => rw [(List.cons.inj heq).1] at hc; cases hc
  · next heq => rw [(List.cons.inj heq).1] at hc; cases hc
  · rfl

/-- Every number of the grammar is read, up to its end. -/
theorem Number.number_eq (h : Number cs item rest) (hrest : Ends rest) :
    number cs = some (item, rest) := by
  obtain ⟨negative, cs₁, ds, cs₂, hsign, hwhole, hends, hread⟩ |
    ⟨letter, base, isDigit, cs₁, rfl, hbase, hread⟩ |
    ⟨negative, hsign, rfl⟩ | ⟨negative, hsign, rfl⟩ := h.form hrest
  · obtain ⟨c, more, rfl, hc⟩ := hwhole.1.head
    rw [number_eq_signed hsign ⟨c, more, rfl, Or.inl hc⟩ fun letter hletter more =>
      hwhole.not_based hends hletter more, signed_eq_decimal hc, hread]
  · cases hbase with
    -- The branch is chosen by the first two characters.
    | hexadecimal => exact hread
    | octal => exact hread
    | binary => exact hread
  · rw [number_eq_signed hsign
      ⟨'i', _, rfl, Or.inr (Or.inl rfl)⟩ fun letter _ more heq => by cases heq]
    rfl
  · rw [number_eq_signed hsign
      ⟨'n', _, rfl, Or.inr (Or.inr rfl)⟩ fun letter _ more heq => by cases heq]
    rfl

lemma based_sound {letter : Char} {base : Nat} {isDigit : Char → Bool}
    (hbase : Base letter base isDigit) (h : based base isDigit cs = some (item, rest)) :
    Number ('0' :: letter :: cs) item rest := by
  obtain ⟨ds, n, w, hds, hn, hw, hlt, rfl⟩ := based_eq_some_iff.mp h
  have hunder : isDigit '_' = false := by cases hbase <;> rfl
  exact .based hbase (digits_sound hunder hds) hn hw hlt

lemma signed_sound (hsign : Sign cs negative cs₁)
    (h : signed negative cs₁ = some (item, rest)) :
    Number cs item rest := by
  unfold signed at h
  split at h
  · cases h; exact .infinite hsign
  · cases h; exact .nan hsign
  · exact decimal_sound hsign h

/-- Only numbers of the grammar are read as numbers. -/
theorem number_sound (h : number cs = some (item, rest)) : Number cs item rest := by
  unfold number at h
  split at h
  · exact based_sound .hexadecimal h
  · exact based_sound .octal h
  · exact based_sound .binary h
  · exact signed_sound .plus h
  · exact signed_sound .minus h
  · exact signed_sound .none h

lemma Fraction.length_lt {fs : List Char} (h : Fraction cs fs rest) :
    rest.length < cs.length := by
  cases h with
  | point hds => exact Nat.lt_succ_of_lt hds.length_lt

lemma Exponent.length_lt {e : Int} (h : Exponent cs e rest) :
    rest.length < cs.length := by
  cases h with
  | letter _ hsign hds =>
    have := hsign.length_le
    have := hds.length_lt
    rw [List.length_cons]
    omega

theorem Number.length_lt (h : Number cs item rest) : rest.length < cs.length := by
  cases h with
  | decimal hsign hwhole =>
    have := hsign.length_le
    have := hwhole.1.length_lt
    omega
  | based _ hds => exact Nat.lt_succ_of_lt (Nat.lt_succ_of_lt hds.length_lt)
  | fraction hsign hwhole hfrac =>
    have := hsign.length_le
    have := hwhole.1.length_lt
    have := hfrac.length_lt
    omega
  | exponent hsign hwhole hexp =>
    have := hsign.length_le
    have := hwhole.1.length_lt
    have := hexp.length_lt
    omega
  | fractionExponent hsign hwhole hfrac hexp =>
    have := hsign.length_le
    have := hwhole.1.length_lt
    have := hfrac.length_lt
    have := hexp.length_lt
    omega
  | infinite hsign =>
    have := hsign.length_le
    simp only [List.length_cons] at this
    omega
  | nan hsign =>
    have := hsign.length_le
    simp only [List.length_cons] at this
    omega

end

end Workplan.Toml.Grammar
