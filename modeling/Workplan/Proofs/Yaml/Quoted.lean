import Mathlib.Tactic.Lemma
import Workplan.Proofs.Text.Digits
import Workplan.Proofs.Yaml.Gaps
import Workplan.Yaml.Scalars

/-!
# Quoted scalars read back

A text in quotes is words with gaps between them (`Laid`).  The reader of quoted scalars
answers with the text and moves behind the closing quote (`Laid.reads`); both layouts of
quoted texts, with either kind of quote, are of this form (`laid_double`, `laid_single`).
-/

namespace Workplan.Yaml

/-! ## Words -/

/-- How a character is written inside a word. -/
structure ReadsAs (single : Bool) (enc : List Char) (ch : Char) : Prop where
  nonempty : enc ≠ []
  solid : ∀ x ∈ enc, isGap x = false ∧ isBreak x = false
  step : ∀ {c : Cursor} {r : List Char}, c.rest = enc ++ r → ∀ fuel acc,
    quotedWords single (fuel + 1) acc c = quotedWords single fuel (ch :: acc) (c.beyond enc)

/-- The quote around a text. -/
def quoteOf (single : Bool) : Char :=
  if single then '\'' else '"'

/-- Whether a word ends at a cursor. -/
def WordEnds (single : Bool) (c : Cursor) : Prop :=
  ∀ fuel acc, quotedWords single (fuel + 1) acc c = some (acc, false, c)

section
variable {single : Bool} {c : Cursor} {ch : Char} {r : List Char}

/-- A word ends at a blank or a break. -/
lemma wordEnds_at_gap (h : c.rest = ch :: r) (hch : (isGap ch || isBreak ch) = true) :
    WordEnds single c := by
  intro fuel acc
  unfold quotedWords
  rw [h]
  split
  · rfl
  · next heq => rw [(List.cons.inj heq).1] at hch; exact absurd hch (by decide)
  · next heq => rw [(List.cons.inj heq).1] at hch; exact absurd hch (by decide)
  · next heq => rw [(List.cons.inj heq).1] at hch; exact absurd hch (by decide)
  · next heq =>
    obtain ⟨rfl, rfl⟩ := List.cons.inj heq
    rw [if_pos hch]

/-- A word ends at the closing quote, which in single quotes is not doubled. -/
lemma wordEnds_at_quote (h : c.rest = quoteOf single :: r)
    (hr : single = true → r.head? ≠ some '\'') :
    WordEnds single c := by
  intro fuel acc
  unfold quotedWords
  rw [h]
  cases single with
  | false => rfl
  | true =>
    have hbehind := hr rfl
    rcases r with _ | ⟨head, r⟩
    · rfl
    · have hother : head ≠ '\'' := fun heq => hbehind (congrArg some heq)
      simp [quoteOf, hother]

/-- A word is read to its end. -/
lemma quotedWords_word {enc : Char → List Char} {w : List Char}
    (hw : ∀ ch ∈ w, ReadsAs single (enc ch) ch) (h : c.rest = w.flatMap enc ++ r)
    (hend : WordEnds single (c.beyond (w.flatMap enc))) {fuel : Nat}
    (hfuel : (w.flatMap enc).length < fuel) (acc : List Char) :
    quotedWords single fuel acc c = some (w.reverse ++ acc, false,
      c.beyond (w.flatMap enc)) := by
  induction w generalizing c fuel acc with
  | nil =>
    obtain ⟨fuel, rfl⟩ : ∃ f, fuel = f + 1 := ⟨fuel - 1, by omega⟩
    exact hend fuel acc
  | cons ch w ih =>
    rw [List.forall_mem_cons] at hw
    have hlength := List.length_pos_iff.mpr hw.1.nonempty
    rw [List.flatMap_cons, List.length_append] at hfuel
    rw [List.flatMap_cons, List.append_assoc] at h
    rw [List.flatMap_cons, Cursor.beyond_append] at hend ⊢
    obtain ⟨fuel, rfl⟩ : ∃ f, fuel = f + 1 := ⟨fuel - 1, by omega⟩
    rw [hw.1.step h, ih hw.2 (Cursor.rest_beyond h) hend (by omega), List.reverse_cons,
      List.append_assoc]
    rfl

end

/-! ## Words with gaps between them -/

/-- The texts that a quoted scalar may hold, as they are written.  Behind breaks stands
the indentation of the next line. -/
inductive Laid (single : Bool) (enc : Char → List Char) : List Char → List Char → Prop
  | word {w : List Char} (hw : ∀ ch ∈ w, ReadsAs single (enc ch) ch) :
      Laid single enc (w.flatMap enc) w
  | blanks {w text cs : List Char} (n : Nat) (hw : ∀ ch ∈ w, ReadsAs single (enc ch) ch)
      (hsolid : Solid text) (hrest : Laid single enc text cs) :
      Laid single enc (w.flatMap enc ++ (Yaml.blanks (n + 1) ++ text))
        (w ++ (Yaml.blanks (n + 1) ++ cs))
  | breaks {w bs text cs : List Char} {b : Char} (n : Nat)
      (hw : ∀ ch ∈ w, ReadsAs single (enc ch) ch)
      (hb : isPrintedBreak b = true) (hfeed : b ≠ '\n')
        (hbs : ∀ b ∈ bs, isPrintedBreak b = true)
      (hsolid : Solid text) (hrest : Laid single enc text cs) :
      Laid single enc (w.flatMap enc ++ (b :: bs ++ (Yaml.blanks (n + 1) ++ text)))
        (w ++ (b :: bs ++ cs))

section
variable {single : Bool} {enc : Char → List Char} {text cs tail : List Char} {c : Cursor}

lemma solid_quote (h : Solid text) (tail : List Char) :
    Solid (text ++ quoteOf single :: tail) := by
  cases text with
  | nil =>
    intro ch hch
    obtain rfl := Option.some.inj hch
    cases single <;> exact ⟨rfl, rfl⟩
  | cons x text => exact h

/-- Over the first word and the gap behind it. -/
lemma quotedRest_gap {w r : List Char} {ch : Char} {g : Gap} {next : Cursor}
    (hw : ∀ ch ∈ w, ReadsAs single (enc ch) ch) (h : c.rest = w.flatMap enc ++ ch :: r)
    (hch : (isGap ch || isBreak ch) = true) (hcolumn : 0 < c.column)
    (hgap : (c.beyond (w.flatMap enc)).gap none (ch :: r).length (Gap.empty false) =
      some (g, next))
    (fuel : Nat) (acc : List Char) :
    quotedRest single (fuel + 1) acc c = quotedRest single fuel
      (g.text.reverse ++ (w.reverse ++ acc)) next := by
  have hnext := Cursor.rest_beyond h
  have hempty : c.rest.isEmpty = false := by rw [h]; cases w.flatMap enc <;> rfl
  have hfuel : (w.flatMap enc).length < c.rest.length + 1 := by
    rw [h, List.length_append]; omega
  -- A word that ends in front of a gap does not end the scalar.
  have hquote : (some ch == some (if single then '\'' else '"')) = false := by
    rw [beq_eq_false_iff_ne]
    intro heq
    obtain rfl := Option.some.inj heq
    cases single <;> cases hch
  rw [quotedRest, Cursor.not_atBoundary hcolumn, hempty,
    quotedWords_word hw h (wordEnds_at_gap hnext hch) hfuel]
  show (if (c.beyond (w.flatMap enc)).rest.head? == _ then _ else _) = _
  rw [hnext, List.head?_cons, hquote, if_neg (by decide), hgap]
  rfl

lemma Gap.text_breaks {b : Char} (hb : b ≠ '\n') (bs : List Char) :
    (⟨[], true, [b], bs⟩ : Gap).text = b :: bs := by
  have hne : ([b].head? == some '\n') = false := by
    rw [List.head?_cons, beq_eq_false_iff_ne]
    exact fun h => hb (Option.some.inj h)
  rw [Gap.text, hne]
  rfl

/-- A text in quotes is read to its closing quote. -/
lemma Laid.quotedRest (h : Laid single enc text cs)
    (hrest : c.rest = text ++ quoteOf single :: tail)
    (htail : single = true → tail.head? ≠ some '\'') (hcolumn : 0 < c.column) {fuel : Nat}
    (hfuel : text.length < fuel) (acc : List Char) :
    quotedRest single fuel acc c = some (cs.reverse ++ acc,
      c.beyond (text ++ [quoteOf single])) := by
  -- A laid text is words, each with the gap behind it; the last one is closed by the quote.
  induction h generalizing c fuel acc with
  | @word w hw =>
    obtain ⟨fuel, rfl⟩ : ∃ f, fuel = f + 1 := ⟨fuel - 1, by omega⟩
    have hnext := Cursor.rest_beyond hrest
    have hempty : c.rest.isEmpty = false := by rw [hrest]; cases w.flatMap enc <;> rfl
    have hlength : (w.flatMap enc).length < c.rest.length + 1 := by
      rw [hrest, List.length_append]; omega
    rw [Yaml.quotedRest, Cursor.not_atBoundary hcolumn, hempty,
      quotedWords_word hw hrest (wordEnds_at_quote hnext htail) hlength,
      Cursor.beyond_append]
    show (if (c.beyond (w.flatMap enc)).rest.head? == _ then _ else _) = _
    rw [hnext, List.head?_cons, if_pos (by rw [beq_iff_eq]; rfl)]
    cases single <;> rfl
  | @blanks w text cs n hw hsolid _ ih =>
    obtain ⟨fuel, rfl⟩ : ∃ f, fuel = f + 1 := ⟨fuel - 1, by omega⟩
    rw [List.append_assoc, List.append_assoc] at hrest
    have hnext := Cursor.rest_beyond hrest
    have hlong : n + 1 ≤
        (Yaml.blanks (n + 1) ++ (text ++ quoteOf single :: tail)).length := by
      rw [List.length_append, length_blanks]
      omega
    have hgap := gap_blanks hnext (solid_quote hsolid tail) none hlong []
    have hmoved : 0 < ((c.beyond (w.flatMap enc)).beyond (Yaml.blanks (n + 1))).column := by
      rw [Cursor.column_beyond_of_one_line isBreak_of_mem_blanks, length_blanks]
      omega
    simp only [List.length_append, length_blanks] at hfuel
    rw [quotedRest_gap hw hrest (by rfl) hcolumn hgap]
    show Yaml.quotedRest single fuel
      (([] ++ Yaml.blanks (n + 1)).reverse ++ (w.reverse ++ acc)) _ = _
    rw [ih (Cursor.rest_beyond hnext) hmoved (by omega)]
    simp only [Cursor.beyond_append, List.reverse_append, List.append_assoc,
      List.nil_append]
  | @breaks w bs text cs b n hw hb hfeed hbs hsolid _ ih =>
    obtain ⟨fuel, rfl⟩ : ∃ f, fuel = f + 1 := ⟨fuel - 1, by omega⟩
    simp only [List.append_assoc] at hrest
    have hnext := Cursor.rest_beyond hrest
    have hlong : bs.length + (n + 1) <
        (b :: bs ++
          (Yaml.blanks (n + 1) ++ (text ++ quoteOf single :: tail))).length := by
      simp only [List.length_append, length_blanks, List.length_cons]
      omega
    have hgap := gap_breaks hnext hb hbs (solid_quote hsolid tail) none hlong
    -- Indentation keeps the rest of the text away from the first column, where a
    -- document could end.
    have hmoved : 0 <
        ((c.beyond (w.flatMap enc)).beyond (b :: bs ++ Yaml.blanks (n + 1))).column := by
      rw [Cursor.beyond_append, Cursor.column_beyond_of_one_line isBreak_of_mem_blanks,
        length_blanks]
      omega
    have hsplit : (c.beyond (w.flatMap enc)).rest
        = (b :: bs ++ Yaml.blanks (n + 1)) ++ (text ++ quoteOf single :: tail) := by
      rw [hnext, List.append_assoc]
    have hword : (isGap b || isBreak b) = true := by
      rw [isBreak_of_isPrintedBreak hb, Bool.or_true]
    simp only [List.length_append, length_blanks] at hfuel
    rw [quotedRest_gap hw hrest hword hcolumn hgap, Gap.text_breaks hfeed,
      ih (Cursor.rest_beyond hsplit) hmoved (by omega)]
    simp only [Cursor.beyond_append, List.reverse_append, List.append_assoc]

/-- A quoted scalar is read to its closing quote. -/
lemma Laid.readQuoted (h : Laid single enc text cs)
    (hrest : c.rest = quoteOf single :: (text ++ quoteOf single :: tail))
    (htail : single = true → tail.head? ≠ some '\'') :
    readQuoted single c
      = some (String.ofList cs,
        c.beyond (quoteOf single :: (text ++ [quoteOf single]))) := by
  have hquote : isBreak (quoteOf single) = false := by cases single <;> rfl
  have hopen : c.skip 1 = c.beyond [quoteOf single] :=
    (Cursor.past_of_not_break hquote c).symm
  have hnext : (c.beyond [quoteOf single]).rest = text ++ quoteOf single :: tail :=
    Cursor.rest_beyond hrest
  have hcolumn : 0 < (c.beyond [quoteOf single]).column := by
    rw [← hopen]
    exact Nat.succ_pos _
  have hfuel : text.length < c.rest.length + 1 := by
    rw [hrest, List.length_cons, List.length_append]
    omega
  rw [Yaml.readQuoted, hopen, h.quotedRest hnext htail hcolumn hfuel,
    Cursor.beyond_cons (quoteOf single) (text ++ _)]
  show some (String.ofList (cs.reverse ++ []).reverse, _) = _
  rw [List.append_nil, List.reverse_reverse]

end

/-! ## Longer texts -/

section
variable {single : Bool} {enc : Char → List Char} {text cs : List Char}

/-- One more character in front, inside a word. -/
lemma Laid.cons_word {ch : Char} (hch : ReadsAs single (enc ch) ch)
    (h : Laid single enc text cs) :
    Laid single enc (enc ch ++ text) (ch :: cs) := by
  have hcons : ∀ w : List Char, (∀ ch ∈ w, ReadsAs single (enc ch) ch) →
      ∀ x ∈ ch :: w, ReadsAs single (enc x) x :=
        fun w hw => List.forall_mem_cons.mpr ⟨hch, hw⟩
  cases h with
  | word hw => exact .word (hcons cs hw)
  | @blanks w text cs n hw hsolid hrest =>
    have hlaid := Laid.blanks n (hcons w hw) hsolid hrest
    rwa [List.flatMap_cons, List.append_assoc] at hlaid
  | @breaks w bs text cs b n hw hb hfeed hbs hsolid hrest =>
    have hlaid := Laid.breaks n (hcons w hw) hb hfeed hbs hsolid hrest
    rwa [List.flatMap_cons, List.append_assoc] at hlaid

/-- An encoded word begins with a solid character. -/
lemma solid_word {w : List Char} (hw : ∀ ch ∈ w, ReadsAs single (enc ch) ch)
    (hne : w ≠ []) (r : List Char) :
    Solid (w.flatMap enc ++ r) := by
  cases w with
  | nil => exact absurd rfl hne
  | cons ch w =>
    have hch := hw ch List.mem_cons_self
    intro x hx
    cases henc : enc ch with
    | nil => exact absurd henc hch.nonempty
    | cons y ys =>
      rw [List.flatMap_cons, henc] at hx
      obtain rfl := Option.some.inj hx
      exact hch.solid y (by rw [henc]; exact List.mem_cons_self)

/-- One more blank in front. -/
lemma Laid.cons_blank (h : Laid single enc text cs)
    (hbreak : ∀ b, text.head? = some b → isBreak b = false) :
    Laid single enc (' ' :: text) (' ' :: cs) := by
  have hnil : ∀ ch ∈ ([] : List Char), ReadsAs single (enc ch) ch :=
    fun ch hch => by cases hch
  have hfirst : Solid text → Laid single enc (' ' :: text) (' ' :: cs) := fun hsolid =>
    Laid.blanks 0 hnil hsolid h
  -- A blank in front of a word makes a gap of its own; one in front of blanks makes their
  -- gap longer.
  cases h with
  | word hw =>
    apply hfirst
    by_cases hw0 : cs = []
    · rw [hw0]
      intro ch hch
      cases hch
    · have hsolid := solid_word hw hw0 []
      rwa [List.append_nil] at hsolid
  | @blanks w text cs n hw hsolid hrest =>
    by_cases hw0 : w = []
    · rw [hw0]
      exact Laid.blanks (n + 1) hnil hsolid hrest
    · exact hfirst (solid_word hw hw0 _)
  | @breaks w bs text cs b n hw hb hfeed hbs hsolid hrest =>
    by_cases hw0 : w = []
    · rw [hw0] at hbreak
      have hnot := hbreak b rfl
      rw [isBreak_of_isPrintedBreak hb] at hnot
      cases hnot
    · exact hfirst (solid_word hw hw0 _)

/-- One more break in front of a break. -/
lemma Laid.cons_break {a b : Char} (h : Laid single enc (b :: text) (b :: cs))
    (hb : isBreak b = true) (ha : isPrintedBreak a = true) (hfeed : a ≠ '\n') :
    Laid single enc (a :: b :: text) (a :: b :: cs) := by
  have hnil : ∀ ch ∈ ([] : List Char), ReadsAs single (enc ch) ch :=
    fun ch hch => by cases hch
  -- The text begins with a break, so that its first word is empty.
  have hword : ∀ w r, (∀ ch ∈ w, ReadsAs single (enc ch) ch) →
      b :: text = w.flatMap enc ++ r → w = [] := by
    intro w r hw heq
    refine Classical.byContradiction fun hne => ?_
    have hsolid := (solid_word hw hne r b (by rw [← heq]; rfl)).2
    rw [hb] at hsolid
    cases hsolid
  generalize ht : b :: text = t at h hword
  generalize hc : b :: cs = c at h
  cases h with
  | word hw =>
    obtain rfl := hword c [] hw (by rw [List.append_nil])
    cases ht
  | @blanks w text' cs' n hw hsolid hrest =>
    obtain rfl := hword w _ hw rfl
    rw [(List.cons.inj ht).1] at hb
    cases hb
  | @breaks w bs text' cs' b' n hw hb' hfeed' hbs hsolid hrest =>
    obtain rfl := hword w _ hw rfl
    have hall : ∀ x ∈ b' :: bs, isPrintedBreak x = true :=
      List.forall_mem_cons.mpr ⟨hb', hbs⟩
    exact Laid.breaks n hnil ha hfeed hall hsolid hrest

end

/-! ## Single quotes -/

/-- A character between single quotes. -/
def singleChar (ch : Char) : List Char :=
  if ch = '\'' then ['\'', '\''] else [ch]

/-- In single quotes a character stands for itself, and a doubled quote for one. -/
lemma readsAs_singleChar {ch : Char} (hgap : isGap ch = false)
    (hbreak : isBreak ch = false) :
    ReadsAs true (singleChar ch) ch := by
  unfold singleChar
  by_cases hquote : ch = '\''
  · subst hquote
    have hsolid : ∀ x ∈ ['\'', '\''], isGap x = false ∧ isBreak x = false := by
      simpa using ⟨hgap, hbreak⟩
    refine ⟨by simp, hsolid, ?_⟩
    intro c r h fuel acc
    rw [if_pos rfl] at h ⊢
    rw [quotedWords, h, Cursor.beyond_eq_skip fun x hx => (hsolid x hx).2]
    rfl
  · rw [if_neg hquote]
    refine ⟨by simp, by simpa using ⟨hgap, hbreak⟩, ?_⟩
    intro c r h fuel acc
    have hpast : c.beyond [ch] = c.skip 1 := Cursor.past_of_not_break hbreak c
    rw [quotedWords, h, hpast]
    -- The character is not the quote, and no gap.
    split
    · next heq => cases heq
    · next heq => exact absurd (List.cons.inj heq).1 hquote
    · next heq => rw [(List.cons.inj heq).1]; rfl
    · next heq => rw [(List.cons.inj heq).1]; rfl
    · next heq =>
      obtain ⟨rfl, -⟩ := List.cons.inj heq
      rw [hgap, hbreak]
      rfl

/-- The text between single quotes, the indentation of the closing quote included. -/
def singleBody (indent : Nat) : Bool → List Char → List Char
  | broken, [] => if broken then blanks indent else []
  | broken, ch :: rest =>
    if isBreak ch then ch :: singleBody indent true rest
    else (if broken then blanks indent else []) ++ singleChar ch ++
      singleBody indent false rest

section
variable {indent : Nat} {ch : Char} {rest : List Char}

lemma singleBody_of_break (hch : isBreak ch = true) (broken : Bool) :
    singleBody indent broken (ch :: rest) = ch :: singleBody indent true rest := by
  rw [singleBody, if_pos hch]

lemma singleBody_of_not_break (hch : isBreak ch = false) :
    singleBody indent false (ch :: rest) = singleChar ch ++
      singleBody indent false rest := by
  rw [singleBody, hch]
  rfl

/-- Behind a break, what follows is indented. -/
lemma singleBody_true (hch : isBreak ch = false) :
    singleBody indent true (ch :: rest) = blanks indent ++ singleBody indent false
      (ch :: rest) := by
  rw [singleBody_of_not_break hch, singleBody, hch, ← List.append_assoc]
  rfl

/-- The first character of a text between single quotes. -/
lemma head?_singleBody (hch : isBreak ch = false) :
    (singleBody indent false (ch :: rest)).head? = some ch := by
  rw [singleBody_of_not_break hch, singleChar]
  split
  · next h => rw [h]; rfl
  · rfl

end

/-- On one line, there is no indentation. -/
theorem singleBody_of_one_line {cs : List Char} (indent : Nat)
    (h : ∀ ch ∈ cs, isBreak ch = false) :
    singleBody indent false cs = cs.flatMap singleChar := by
  induction cs with
  | nil => rfl
  | cons ch rest ih =>
    rw [List.forall_mem_cons] at h
    rw [singleBody_of_not_break h.1, ih h.2, List.flatMap_cons]

lemma singleBody_eq (indent : Nat) (broken : Bool) (cs : List Char) :
    singleBody indent broken cs
      = indented indent singleChar broken cs
        ++ (if cs = [] then (if broken then blanks indent else [])
            else if cs.getLast?.any isBreak then blanks indent else []) := by
  induction cs generalizing broken with
  | nil => rfl
  | cons ch rest ih =>
    unfold singleBody indented
    -- The last character decides about the line of the closing quote.
    cases rest with
    | nil =>
      by_cases hch : isBreak ch = true
      · simp [hch, singleBody, indented]
      · simp [hch, singleBody, indented]
    | cons ch' rest =>
      have hlast : (ch :: ch' :: rest).getLast? = (ch' :: rest).getLast? :=
        List.getLast?_cons_cons
      by_cases hch : isBreak ch = true
      · simp [hch, ih, hlast]
      · simp [hch, ih, hlast]

/-- Single quotes enclose the body of a text. -/
theorem singleQuoted_eq (indent : Nat) (cs : List Char) :
    singleQuoted indent cs = '\'' :: (singleBody indent false cs ++ ['\'']) := by
  rw [singleBody_eq]
  cases cs with
  | nil => rfl
  | cons ch rest => rfl

lemma hasNeighbours_cons {p q : Char → Bool} {a : Char} {cs : List Char}
    (h : hasNeighbours p q (a :: cs) = false) :
    hasNeighbours p q cs = false ∧ ∀ b, cs.head? = some b → p a = true → q b = false := by
  cases cs with
  | nil => exact ⟨rfl, fun b hb => by cases hb⟩
  | cons b rest =>
    rw [hasNeighbours, Bool.or_eq_false_iff, Bool.and_eq_false_iff] at h
    refine ⟨h.2, fun b' hb hp => ?_⟩
    obtain rfl := Option.some.inj hb
    rcases h.1 with hnot | hnot
    · rw [hp] at hnot
      cases hnot
    · exact hnot

/-- A character in front of a text between single quotes: a blank, unless a break follows,
or a part of a word. -/
lemma Laid.cons_single {indent : Nat} {ch : Char} {rest : List Char}
    (h : Laid true singleChar (singleBody indent false rest) rest)
    (hprintable : isPrintable ch = true) (hch : isBreak ch = false)
    (hnext : ∀ x, rest.head? = some x → isSpace ch = true → isBreak x = false) :
    Laid true singleChar (singleBody indent false (ch :: rest)) (ch :: rest) := by
  rw [singleBody_of_not_break hch]
  by_cases hspace : isSpace ch = true
  · obtain rfl := eq_of_beq hspace
    refine h.cons_blank fun b hb => ?_
    cases rest with
    | nil => cases hb
    | cons x rest =>
      have hx := hnext x rfl hspace
      rw [head?_singleBody hx] at hb
      obtain rfl := Option.some.inj hb
      exact hx
  · rw [Bool.not_eq_true] at hspace
    exact h.cons_word (readsAs_singleChar (isGap_of_isPrintable hprintable hspace) hch)

/-- A break in front of a line, which is indented. -/
lemma Laid.break_single {indent : Nat} {b ch : Char} {rest : List Char}
    (h : Laid true singleChar (singleBody indent false (ch :: rest)) (ch :: rest))
    (hprintable : isPrintable ch = true) (hch : isBreak ch = false)
    (hspace : isSpace ch = false) (hb : isPrintedBreak b = true) (hne : b ≠ '\n')
    (hindent : 0 < indent) :
    Laid true singleChar (b :: singleBody indent true (ch :: rest)) (b :: ch :: rest) := by
  obtain ⟨n, rfl⟩ : ∃ n, indent = n + 1 := ⟨indent - 1, by omega⟩
  have hnil : ∀ ch ∈ ([] : List Char), ReadsAs true (singleChar ch) ch :=
    fun ch hch => by cases hch
  have hnone : ∀ b ∈ ([] : List Char), isPrintedBreak b = true := fun b hb => by cases hb
  have hsolid : Solid (singleBody (n + 1) false (ch :: rest)) := by
    intro x hx
    rw [head?_singleBody hch] at hx
    obtain rfl := Option.some.inj hx
    exact ⟨isGap_of_isPrintable hprintable hspace, hch⟩
  rw [singleBody_true hch]
  exact Laid.breaks n hnil hb hne hnone hsolid h

/-- What may stand between single quotes is laid out as words and gaps. -/
theorem laid_single {indent : Nat} {cs : List Char}
    (hprintable : ∀ ch ∈ cs, isPrintable ch = true) (hfeed : '\n' ∉ cs)
    (hbs : hasNeighbours isBreak isSpace cs = false)
    (hsb : hasNeighbours isSpace isBreak cs = false)
    (hindent : 0 < indent ∨ ∀ ch ∈ cs, isBreak ch = false) :
    Laid true singleChar (singleBody indent false cs) cs ∧
      ∀ b, isPrintedBreak b = true → b ≠ '\n' → 0 < indent →
        (cs.head?.any isSpace) = false →
        Laid true singleChar (b :: singleBody indent true cs) (b :: cs) := by
  have hnil : ∀ ch ∈ ([] : List Char), ReadsAs true (singleChar ch) ch :=
    fun ch hch => by cases hch
  have hnone : ∀ b ∈ ([] : List Char), isPrintedBreak b = true := fun b hb => by cases hb
  -- A break is a part of the gap that starts in front of it, so the text behind a break
  -- is looked at too.
  induction cs with
  | nil =>
    refine ⟨.word hnil, fun b hb hne hpos _ => ?_⟩
    obtain ⟨n, rfl⟩ : ∃ n, indent = n + 1 := ⟨indent - 1, by omega⟩
    have hsolid : Solid [] := fun ch hch => by cases hch
    have hlaid := Laid.breaks n hnil hb hne hnone hsolid (.word hnil)
    rwa [List.flatMap_nil, List.append_nil] at hlaid
  | cons ch rest ih =>
    rw [List.forall_mem_cons] at hprintable
    rw [List.mem_cons, not_or] at hfeed
    obtain ⟨hbs, hbsHead⟩ := hasNeighbours_cons hbs
    obtain ⟨hsb, hsbHead⟩ := hasNeighbours_cons hsb
    have hrest : 0 < indent ∨ ∀ ch ∈ rest, isBreak ch = false :=
      hindent.imp id fun h => (List.forall_mem_cons.mp h).2
    obtain ⟨hlaid, hafter⟩ := ih hprintable.2 hfeed.2 hbs hsb hrest
    have hspaceAfter : isBreak ch = true → (rest.head?.any isSpace) = false := by
      intro hch
      cases rest with
      | nil => rfl
      | cons x rest => exact hbsHead x rfl hch
    by_cases hch : isBreak ch = true
    · have hprinted : isPrintedBreak ch = true := by
        rw [isPrintedBreak, hprintable.1, hch]; rfl
      have hpos : 0 < indent := by
        rcases hindent with h | h
        · exact h
        · have hnot := h ch List.mem_cons_self
          rw [hch] at hnot
          cases hnot
      have hfirst := hafter ch hprinted (Ne.symm hfeed.1) hpos (hspaceAfter hch)
      rw [singleBody_of_break hch, singleBody_of_break hch]
      exact ⟨hfirst, fun b hb hne _ _ => hfirst.cons_break hch hb hne⟩
    · rw [Bool.not_eq_true] at hch
      have hfirst := hlaid.cons_single hprintable.1 hch hsbHead
      exact ⟨hfirst, fun b hb hne hpos hspace =>
        hfirst.break_single hprintable.1 hch hspace hb hne hpos⟩

/-! ## Double quotes -/

lemma exists_of_mem_toDigits {n : Nat} {x : Char} (hx : x ∈ Nat.toDigits 16 n) :
    ∃ d, d < 16 ∧ x = Nat.digitChar d := by
  induction n using Nat.strongRecOn with
  | ind n ih =>
    by_cases hn : n < 16
    · rw [Nat.toDigits_of_lt_base hn, List.mem_singleton] at hx
      exact ⟨n, hn, hx⟩
    · rw [Nat.toDigits_of_base_le (by omega) (by omega), List.mem_append] at hx
      rcases hx with hx | hx
      · exact ih (n / 16) (by omega) hx
      · rw [List.mem_singleton] at hx
        exact ⟨n % 16, Nat.mod_lt _ (by omega), hx⟩

/-- The digits of a numbered escape are printed as they are. -/
theorem of_mem_hexUpper {width n : Nat} {x : Char} (hx : x ∈ hexUpper width n) :
    isPrintable x = true ∧ isGap x = false ∧ isBreak x = false := by
  have hdigit : ∀ d, d < 16 → isPrintable (Nat.digitChar d).toUpper = true ∧
      isGap (Nat.digitChar d).toUpper = false ∧
      isBreak (Nat.digitChar d).toUpper = false := by decide
  unfold hexUpper at hx
  rcases List.mem_append.mp hx with hx | hx
  · rw [List.eq_of_mem_replicate hx]
    decide
  · obtain ⟨y, hy, rfl⟩ := List.mem_map.mp hx
    obtain ⟨d, hd, rfl⟩ := exists_of_mem_toDigits hy
    exact hdigit d hd

theorem length_hexUpper {width n : Nat} (hwidth : 0 < width) (hn : n < Nat.pow 16 width) :
    (hexUpper width n).length = width := by
  have hdigits := (Nat.length_toDigits_le_iff (show 1 < 16 by omega) hwidth).mpr hn
  unfold hexUpper
  dsimp only
  rw [List.length_append, List.length_replicate, List.length_map]
  omega

/-- A number is read back from its hexadecimal digits, also if they are filled up
with zeros. -/
lemma natOfDigits?_hexUpper (width n : Nat) :
    Text.natOfDigits? 16 (hexUpper width n) = some n :=
  Text.natOfDigits?_padded _ n

/-- A character is found by its number. -/
lemma charOfNumber?_toNat (ch : Char) : charOfNumber? ch.toNat = some ch := by
  have hvalid : ch.toNat < 0xD800 ∨ (0xDFFF < ch.toNat ∧ ch.toNat < 0x110000) := ch.valid
  rw [charOfNumber?, if_pos hvalid, Char.ofNat_toNat]

/-- An escape by number. -/
lemma readsAs_numbered {ch sign : Char} {width : Nat}
    (hsign : escapeLength? sign = some width) (hwidth : 0 < width)
    (hch : ch.toNat < Nat.pow 16 width) :
    ReadsAs false ('\\' :: sign :: hexUpper width ch.toNat) ch := by
  -- The letter of a numbered escape is no other escape and no break.
  have hletter : isBreak sign = false ∧ isGap sign = false ∧ escapedChar? sign = none := by
    unfold escapeLength? at hsign
    split at hsign
    · decide
    · decide
    · decide
    · cases hsign
  have hsolid : ∀ x ∈ '\\' :: sign :: hexUpper width ch.toNat, isGap x = false ∧
      isBreak x = false := by
    rw [List.forall_mem_cons, List.forall_mem_cons]
    exact ⟨by decide, ⟨hletter.2.1, hletter.1⟩, fun x hx => (of_mem_hexUpper hx).2⟩
  have hlength := length_hexUpper hwidth hch
  refine ⟨by simp, hsolid, ?_⟩
  intro c r h fuel acc
  rw [Cursor.beyond_eq_skip fun x hx => (hsolid x hx).2, quotedWords, h]
  have hlong : ¬ (hexUpper width ch.toNat ++ r).length < width := by
    rw [List.length_append, hlength]
    omega
  have htake : (hexUpper width ch.toNat ++ r).take width = hexUpper width ch.toNat :=
    List.take_left' hlength
  rw [List.cons_append, List.cons_append]
  show (if isBreak sign then _ else _) = _
  rw [hletter.1, if_neg (by decide), hletter.2.2, hsign]
  dsimp only
  rw [if_neg hlong, htake, natOfDigits?_hexUpper, Option.bind_some, charOfNumber?_toNat]
  rw [List.length_cons, List.length_cons, hlength]

/-- An escape of one letter. -/
lemma readsAs_lettered {ch sign : Char} (hsign : escapedChar? sign = some ch)
    (hsolid : isGap sign = false ∧ isBreak sign = false) :
    ReadsAs false ['\\', sign] ch := by
  refine ⟨by simp, by simpa using ⟨by decide, hsolid⟩, ?_⟩
  intro c r h fuel acc
  rw [Cursor.beyond_eq_skip (by simpa using ⟨by decide, hsolid.2⟩), quotedWords, h]
  show (if isBreak sign then _ else _) = _
  rw [hsolid.2, if_neg (by decide), hsign]
  rfl

/-- A character that stands for itself between double quotes. -/
lemma readsAs_itself {ch : Char} (hgap : isGap ch = false) (hbreak : isBreak ch = false)
    (hquote : ch ≠ '"') (hescape : ch ≠ '\\') : ReadsAs false [ch] ch := by
  refine ⟨by simp, by simpa using ⟨hgap, hbreak⟩, ?_⟩
  intro c r h fuel acc
  have hpast : c.beyond [ch] = c.skip 1 := Cursor.past_of_not_break hbreak c
  rw [quotedWords, h, hpast]
  split
  · next heq => cases heq
  · next heq => rw [(List.cons.inj heq).1]; rfl
  · next heq => exact absurd (List.cons.inj heq).1 hquote
  · next heq => exact absurd (List.cons.inj heq).1 hescape
  · next heq =>
    obtain ⟨rfl, -⟩ := List.cons.inj heq
    rw [hgap, hbreak]
    rfl

lemma readsAs_escapeChar {ch : Char} (hspace : ch ≠ ' ') :
    ReadsAs false (escapeChar ch) ch := by
  unfold escapeChar
  split
  all_goals first | exact readsAs_lettered rfl (by decide) | skip
  next hnul hbell hback htab hfeed hvertical hpage hreturn hesc hquote hescape hnext hline
    hparagraph =>
  have hvalid : ch.toNat < 0xD800 ∨ (0xDFFF < ch.toNat ∧ ch.toNat < 0x110000) := ch.valid
  by_cases hprintable : isPrintable ch = true
  · rw [if_pos hprintable]
    have hgap := isGap_of_isPrintable hprintable (beq_eq_false_iff_ne.mpr hspace)
    -- The breaks that could be printed have letters of their own.
    have hbreak : isBreak ch = false := by
      refine Bool.eq_false_iff.mpr fun hbreak => ?_
      have hprinted : isPrintedBreak ch = true := by
        rw [isPrintedBreak, hprintable, hbreak]; rfl
      rcases isPrintedBreak_iff.mp hprinted with rfl | rfl | rfl
      · exact hfeed rfl
      · exact hline rfl
      · exact hparagraph rfl
    exact readsAs_itself hgap hbreak hquote hescape
  · rw [if_neg hprintable]
    -- The width of the number is the least that is wide enough.
    by_cases hsmall : ch.toNat ≤ 0xFF
    · rw [if_pos hsmall]
      exact readsAs_numbered rfl (by omega) (show ch.toNat < 16 ^ 2 by omega)
    · rw [if_neg hsmall]
      by_cases hmedium : ch.toNat ≤ 0xFFFF
      · rw [if_pos hmedium]
        exact readsAs_numbered rfl (by omega) (show ch.toNat < 16 ^ 4 by omega)
      · rw [if_neg hmedium]
        exact readsAs_numbered rfl (by omega) (show ch.toNat < 16 ^ 8 by omega)

/-- An escaped text stands on one line. -/
theorem isBreak_of_mem_escaped {cs : List Char} :
    ∀ x ∈ cs.flatMap escapeChar, isBreak x = false := by
  intro x hx
  obtain ⟨ch, -, hx⟩ := List.mem_flatMap.mp hx
  by_cases hspace : ch = ' '
  · rw [hspace] at hx
    rw [List.mem_singleton.mp hx]
    rfl
  · exact ((readsAs_escapeChar hspace).solid x hx).2

/-- Every text may stand between double quotes. -/
theorem laid_double (cs : List Char) :
    Laid false escapeChar (cs.flatMap escapeChar) cs := by
  induction cs with
  | nil => exact .word fun ch hch => by cases hch
  | cons ch rest ih =>
    rw [List.flatMap_cons]
    by_cases hspace : ch = ' '
    · rw [hspace]
      exact ih.cons_blank fun b hb => isBreak_of_mem_escaped b (List.mem_of_mem_head? hb)
    · exact ih.cons_word (readsAs_escapeChar hspace)

/-! ## Quoted texts -/

section
variable {c : Cursor} {cs tail : List Char}

theorem readQuoted_doubleQuoted (h : c.rest = doubleQuoted cs ++ tail) :
    readQuoted false c = some (String.ofList cs, c.beyond (doubleQuoted cs)) := by
  have hrest : c.rest = quoteOf false ::
      (cs.flatMap escapeChar ++ quoteOf false :: tail) := by
    rw [h, doubleQuoted, List.cons_append, List.append_assoc]
    rfl
  exact (laid_double cs).readQuoted hrest fun hsingle => by cases hsingle

theorem readQuoted_singleQuoted {indent : Nat} (h : c.rest = singleQuoted indent cs ++ tail)
    (hcs : allowsSingle cs = true) (hfeed : '\n' ∉ cs)
    (hindent : 0 < indent ∨ ∀ ch ∈ cs, isBreak ch = false)
    (htail : tail.head? ≠ some '\'') :
    readQuoted true c = some (String.ofList cs, c.beyond (singleQuoted indent cs)) := by
  unfold allowsSingle at hcs
  simp only [Bool.and_eq_true, Bool.not_eq_true', List.all_eq_true] at hcs
  obtain ⟨⟨hprintable, hbs⟩, hsb⟩ := hcs
  have hlaid := (laid_single hprintable hfeed hbs hsb hindent).1
  rw [singleQuoted_eq] at h ⊢
  have hrest : c.rest = quoteOf true ::
      (singleBody indent false cs ++ quoteOf true :: tail) := by
    rw [h, List.cons_append, List.append_assoc]
    rfl
  exact hlaid.readQuoted hrest fun _ => htail

end

end Workplan.Yaml
