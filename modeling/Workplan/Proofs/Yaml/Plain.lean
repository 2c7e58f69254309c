import Mathlib.Tactic.Lemma
import Workplan.Proofs.Yaml.Gaps
import Workplan.Yaml.Scalars

/-!
# Plain scalars read back

A text that may be written plain is words with blanks between them (`Worded`).  The reader
of plain scalars stops behind its last word if that is in front of a colon, and otherwise
behind the line break and the indentation of the next line, which is less than that of the
scalar (`readPlain_of_allowsPlain`).
-/

namespace Workplan.Yaml

/-! ## Words -/

/-- A word of a plain scalar. -/
structure PlainWord (w : List Char) : Prop where
  nonempty : w ≠ []
  solid : ∀ ch ∈ w, isGap ch = false ∧ isBreak ch = false
  last : w.getLast? ≠ some ':'

/-- Words with blanks between them, none of which reads as a comment. -/
inductive Worded : List Char → Prop
  | last {w : List Char} (hw : PlainWord w) : Worded w
  | more {w cs : List Char} (n : Nat) (hw : PlainWord w) (hhead : cs.head? ≠ some '#')
      (hrest : Worded cs) :
      Worded (w ++ (blanks (n + 1) ++ cs))

/-- The reader takes a word up to its end, if it is one that no colon ends. -/
lemma plainWord_of_solid {w r : List Char}
    (hsolid : ∀ ch ∈ w, isGap ch = false ∧ isBreak ch = false)
    (hlast : w.getLast? ≠ some ':') (hr : plainWord false r = some []) :
    plainWord false (w ++ r) = some w := by
  induction w with
  | nil => exact hr
  | cons ch w ih =>
    rw [List.forall_mem_cons] at hsolid
    have hrest : w.getLast? ≠ some ':' := by
      cases w with
      | nil => intro h; cases h
      | cons x w => rwa [List.getLast?_cons_cons] at hlast
    -- A colon inside the word has a solid character behind it.
    have hcolon : (ch == ':' && atGapOrEnd (w ++ r)) = false := by
      rw [Bool.and_eq_false_iff]
      cases w with
      | nil =>
        left
        rw [beq_eq_false_iff_ne]
        rintro rfl
        exact hlast rfl
      | cons x w =>
        right
        have hx := hsolid.2 x List.mem_cons_self
        show (isGap x || isBreak x) = false
        rw [hx.1, hx.2]
        rfl
    have hflow : (ch == ':' && false && (w ++ r).head?.any fun ch =>
        ",?[]\x7b\x7d".toList.contains ch) = false := by
      rw [Bool.and_false, Bool.false_and]
    rw [List.cons_append, plainWord, hsolid.1.1, hsolid.1.2, hflow, hcolon,
      ih hsolid.2 hrest]
    rfl

theorem Worded.ne_nil {cs : List Char} (h : Worded cs) : cs ≠ [] := by
  cases h with
  | last hw => exact hw.nonempty
  | more n hw _ _ => exact List.append_ne_nil_of_left_ne_nil hw.nonempty _

/-- Words begin with a character that is neither blank nor a break. -/
lemma Worded.solid {cs : List Char} (h : Worded cs) (r : List Char) : Solid (cs ++ r) := by
  have hword : ∀ w r, PlainWord w → Solid (w ++ r) := by
    intro w r hw ch hch
    cases w with
    | nil => exact absurd rfl hw.nonempty
    | cons x w =>
      obtain rfl := Option.some.inj hch
      exact hw.solid _ List.mem_cons_self
  cases h with
  | last hw => exact hword _ _ hw
  | more n hw _ _ =>
    rw [List.append_assoc]
    exact hword _ _ hw

/-! ## The reader -/

/-- What may follow a plain scalar, whether the reader passes a break before it stops, and
how far it moves behind the scalar. -/
inductive PlainEnd (indent : Nat) : List Char → Bool → List Char → Prop
  | colon {r : List Char} (hr : atGapOrEnd r = true) : PlainEnd indent (':' :: r) false []
  | line {k : Nat} {r : List Char} (hk : k < indent) (hr : Solid r) :
      PlainEnd indent ('\n' :: (blanks k ++ r)) true ('\n' :: blanks k)

section
variable {indent : Nat} {r t cs : List Char} {broken : Bool} {c : Cursor}

lemma PlainEnd.plainWord (h : PlainEnd indent r broken t) :
    plainWord false r = some [] := by
  cases h with
  | colon hr =>
    rw [Yaml.plainWord, hr]
    rfl
  | line hk hr => rfl

section
variable {w : List Char} {g : Gap}

/-- A word is not taken for a comment. -/
lemma not_comment (hw : PlainWord w) (hhead : w.head? ≠ some '#') (h : c.rest = w ++ r)
    (hboundary : c.atBoundary = false) :
    (c.atBoundary || c.rest.head? == some '#') = false := by
  have hfirst : c.rest.head? = w.head? := by
    cases w with
    | nil => exact absurd rfl hw.nonempty
    | cons x w => rw [h]; rfl
  rw [hboundary, hfirst, Bool.false_or, beq_eq_false_iff_ne]
  exact hhead

/-- The last word. -/
lemma plainRest_last (hw : PlainWord w) (hhead : w.head? ≠ some '#') (h : c.rest = w ++ r)
    (hr : plainWord false r = some [])
    (hstop : r.head?.any (fun ch => isGap ch || isBreak ch) = false)
    (hboundary : c.atBoundary = false) (fuel : Nat) (acc : List Char) :
    plainRest false indent (fuel + 1) acc g c
      = some (w.reverse ++ (g.text.reverse ++ acc), false, c.beyond w) := by
  have hskip : c.skip w.length = c.beyond w :=
    (Cursor.beyond_eq_skip (fun ch hch => (hw.solid ch hch).2) c).symm
  have hword : w.isEmpty = false := List.isEmpty_eq_false_iff.mpr hw.nonempty
  rw [plainRest, not_comment hw hhead h hboundary, h,
    plainWord_of_solid hw.solid hw.last hr]
  simp only [Option.bind_eq_bind, Option.bind_some, hword, hskip, Cursor.rest_beyond h,
    hstop, Bool.false_eq_true, if_false, Bool.not_false, if_true]
  rfl

/-- A word and the gap behind it. -/
lemma plainRest_gap {g' : Gap} {next : Cursor} (hw : PlainWord w)
    (hhead : w.head? ≠ some '#') (h : c.rest = w ++ r) (hr : plainWord false r = some [])
    (hgo : r.head?.any (fun ch => isGap ch || isBreak ch) = true)
    (hboundary : c.atBoundary = false)
    (hgap : (c.beyond w).gap (some indent) r.length (Gap.empty false) = some (g', next))
    (fuel : Nat) (acc : List Char) :
    plainRest false indent (fuel + 1) acc g c =
      if next.column < indent then
        some (w.reverse ++ (g.text.reverse ++ acc), g'.broken, next)
      else plainRest false indent fuel (w.reverse ++ (g.text.reverse ++ acc)) g' next := by
  have hskip : c.skip w.length = c.beyond w :=
    (Cursor.beyond_eq_skip (fun ch hch => (hw.solid ch hch).2) c).symm
  have hword : w.isEmpty = false := List.isEmpty_eq_false_iff.mpr hw.nonempty
  rw [plainRest, not_comment hw hhead h hboundary, h,
    plainWord_of_solid hw.solid hw.last hr]
  simp only [Option.bind_eq_bind, Option.bind_some, hword, hskip, Cursor.rest_beyond h,
    hgo, hgap, Bool.false_eq_true, if_false, Bool.not_true, Bool.not_false, Bool.true_and,
    decide_eq_true_eq]

end

/-- The reader of plain scalars reads words to their end. -/
lemma Worded.plainRest (h : Worded cs) (hend : PlainEnd indent r broken t)
    (hrest : c.rest = cs ++ r) (hhead : cs.head? ≠ some '#')
    (hboundary : c.atBoundary = false) (hcolumn : indent ≤ c.column + 1) {fuel : Nat}
    (hfuel : cs.length < fuel) (acc : List Char) (g : Gap) :
    plainRest false indent fuel acc g c = some (cs.reverse ++ (g.text.reverse ++ acc),
      broken, c.beyond (cs ++ t)) := by
  -- The gap in front of a word is joined when the word is read.
  induction h generalizing c fuel acc g with
  | @last w hw =>
    obtain ⟨fuel, rfl⟩ : ∃ f, fuel = f + 1 := ⟨fuel - 1, by omega⟩
    have hr := hend.plainWord
    cases hend with
    | colon _ =>
      rw [plainRest_last hw hhead hrest hr (by rfl) hboundary, List.append_nil]
    | @line k r hk hsolid =>
      have hnext := Cursor.rest_beyond hrest
      have hnone : ∀ b ∈ ([] : List Char), isPrintedBreak b = true :=
        fun b hb => by cases hb
      have hgap : (c.beyond w).gap (some indent) ('\n' :: (blanks k ++ r)).length
          (Gap.empty false)
          = some (⟨[], true, ['\n'], []⟩, (c.beyond w).beyond ('\n' :: blanks k)) :=
        gap_breaks hnext (by decide) hnone hsolid (some indent) (by
          simp only [List.length_cons, List.length_append, length_blanks, List.length_nil]
          omega)
      -- The next line starts left of the scalar, which ends there.
      have hleft : ((c.beyond w).beyond ('\n' :: blanks k)).column < indent := by
        rw [column_beyond_break_blanks (by decide)]
        exact hk
      rw [plainRest_gap hw hhead hrest hr (by rfl) hboundary hgap, if_pos hleft,
        Cursor.beyond_append]
  | @more w cs n hw hcs hworded ih =>
    obtain ⟨fuel, rfl⟩ : ∃ f, fuel = f + 1 := ⟨fuel - 1, by omega⟩
    rw [List.append_assoc, List.append_assoc] at hrest
    have hwhead : w.head? ≠ some '#' := by
      cases w with
      | nil => exact absurd rfl hw.nonempty
      | cons x w => exact hhead
    have hnext := Cursor.rest_beyond hrest
    have hlong : n + 1 ≤ (blanks (n + 1) ++ (cs ++ r)).length := by
      rw [List.length_append, length_blanks]
      omega
    have hgap := gap_blanks hnext (hworded.solid r) (some indent) hlong []
    have hmoved : ((c.beyond w).beyond (blanks (n + 1))).column = c.column +
        w.length + (n + 1) := by
      rw [Cursor.column_beyond_of_one_line isBreak_of_mem_blanks, length_blanks,
        Cursor.column_beyond_of_one_line fun ch hch => (hw.solid ch hch).2]
    have hlength := List.length_pos_iff.mpr hw.nonempty
    have hinside : ¬ ((c.beyond w).beyond (blanks (n + 1))).column < indent := by omega
    simp only [List.length_append, length_blanks] at hfuel
    rw [plainRest_gap hw hwhead hrest (by rfl) (by rfl) hboundary hgap, if_neg hinside,
      ih (Cursor.rest_beyond hnext) hcs (Cursor.not_atBoundary (by omega))
        (by omega) (by omega)]
    show some
      (cs.reverse ++
        (([] ++ blanks (n + 1)).reverse ++ (w.reverse ++ (g.text.reverse ++ acc))), _,
        _) = _
    simp only [List.nil_append, List.reverse_append, List.append_assoc,
      Cursor.beyond_append]

end

/-! ## What may be written plain -/

/-- A solid character may stand in front of words. -/
lemma Worded.cons {a : Char} {cs : List Char} (h : Worded cs)
    (ha : isGap a = false ∧ isBreak a = false) :
    Worded (a :: cs) := by
  have hcons : ∀ w, PlainWord w → PlainWord (a :: w) := by
    intro w hw
    refine ⟨by simp, List.forall_mem_cons.mpr ⟨ha, hw.solid⟩, ?_⟩
    cases w with
    | nil => exact absurd rfl hw.nonempty
    | cons x w =>
      rw [List.getLast?_cons_cons]
      exact hw.last
  cases h with
  | last hw => exact .last (hcons _ hw)
  | @more w cs n hw hhead hrest => exact Worded.more n (hcons _ hw) hhead hrest

lemma hasInnerIndicator_cons {a b : Char} {rest : List Char}
    (h : hasInnerIndicator (a :: b :: rest) = false) :
    (b = ':' → atGapOrEnd rest = false) ∧ (isGap a = true → b ≠ '#') ∧
      hasInnerIndicator (b :: rest) = false := by
  rw [hasInnerIndicator, Bool.or_eq_false_iff, Bool.or_eq_false_iff, Bool.and_eq_false_iff,
    Bool.and_eq_false_iff, Bool.or_eq_false_iff] at h
  obtain ⟨⟨hcolon, hcomment⟩, hrest⟩ := h
  refine ⟨?_, ?_, hrest⟩
  · rintro rfl
    exact hcolon.resolve_left (by decide)
  · rintro ha rfl
    rcases hcomment with hcomment | hcomment
    · exact absurd hcomment (by decide)
    · rw [ha] at hcomment
      cases hcomment.1

/-- A text of solid characters and spaces, with nothing in it that reads as a comment or
as the end of a key, is words with blanks between them; behind a first space, blanks may
come before the words. -/
lemma worded_of_spaced {cs : List Char}
    (hchars : ∀ ch ∈ cs, (isGap ch = false ∧ isBreak ch = false) ∨ ch = ' ') :
    (∀ a, (isGap a = false ∧ isBreak a = false) → (a = ':' → atGapOrEnd cs = false) →
        hasInnerIndicator (a :: cs) = false → (a :: cs).getLast? ≠ some ' ' →
        Worded (a :: cs)) ∧
      (hasInnerIndicator (' ' :: cs) = false → (' ' :: cs).getLast? ≠ some ' ' →
        ∃ n rest, cs = blanks n ++ rest ∧ Worded rest ∧ rest.head? ≠ some '#') := by
  -- Whether a blank ends a word is told by what stands behind it, so that both statements
  -- go through together.
  induction cs with
  | nil =>
    refine ⟨fun a ha hcolon _ _ => ?_, fun _ hlast => absurd rfl hlast⟩
    refine .last ⟨by simp, by simpa using ha, ?_⟩
    intro h
    cases hcolon (Option.some.inj h)
  | cons b rest ih =>
    rw [List.forall_mem_cons] at hchars
    obtain ⟨hword, hgap⟩ := ih hchars.2
    refine ⟨fun a ha hcolon hinner hlast => ?_, fun hinner hlast => ?_⟩
    · obtain ⟨hb, -, hinner⟩ := hasInnerIndicator_cons hinner
      rw [List.getLast?_cons_cons] at hlast
      rcases hchars.1 with hsolid | rfl
      · exact (hword b hsolid hb hinner hlast).cons ha
      · obtain ⟨n, rest, rfl, hworded, hhead⟩ := hgap hinner hlast
        have hone : PlainWord [a] := by
          refine ⟨by simp, by simpa using ha, ?_⟩
          intro h
          cases hcolon (Option.some.inj h)
        exact Worded.more n hone hhead hworded
    · obtain ⟨hb, hcomment, hinner⟩ := hasInnerIndicator_cons hinner
      rw [List.getLast?_cons_cons] at hlast
      rcases hchars.1 with hsolid | rfl
      · refine ⟨0, b :: rest, rfl, hword b hsolid hb hinner hlast, ?_⟩
        intro h
        exact hcomment rfl (Option.some.inj h)
      · obtain ⟨n, rest, rfl, hworded, hhead⟩ := hgap hinner hlast
        exact ⟨n + 1, rest, rfl, hworded, hhead⟩

/-- The first character of a plain text is solid, and it is no sign. -/
structure PlainHead (ch : Char) (rest : List Char) : Prop where
  solid : isGap ch = false ∧ isBreak ch = false
  sign : "#,[]\x7b\x7d&*!|>'\"%@\x60".toList.contains ch = false
  spaced : "?:-".toList.contains ch = true → atGapOrEnd rest = false
  mark : ch ≠ '\ufeff'

theorem PlainHead.ne {ch : Char} {rest : List Char} (h : PlainHead ch rest) {sign : Char}
    (hsign : "#,[]\x7b\x7d&*!|>'\"%@\x60".toList.contains sign = true) : ch ≠ sign := by
  rintro rfl
  rw [h.sign] at hsign
  cases hsign

theorem PlainHead.append {ch : Char} {rest : List Char} (h : PlainHead ch rest)
    (r : List Char) :
    PlainHead ch (rest ++ r) := by
  refine ⟨h.solid, h.sign, fun hch => ?_, h.mark⟩
  have hrest := h.spaced hch
  cases rest with
  | nil => cases hrest
  | cons x rest => exact hrest

theorem PlainHead.spaced_eq {ch : Char} {rest : List Char} (h : PlainHead ch rest)
    (sign : Char) (hsign : "?:-".toList.contains sign = true) :
    (ch == sign && atGapOrEnd rest) = false := by
  rw [Bool.and_eq_false_iff]
  by_cases hch : ch = sign
  · exact Or.inr (h.spaced (by rw [hch]; exact hsign))
  · exact Or.inl (beq_eq_false_iff_ne.mpr hch)

/-- What may be written plain. -/
structure PlainText (cs : List Char) : Prop where
  worded : Worded cs
  head : ∃ ch rest, cs = ch :: rest ∧ PlainHead ch rest
  marker : ∀ rest, cs ≠ '-' :: '-' :: '-' :: rest ∧ cs ≠ '.' :: '.' :: '.' :: rest

/-- A text that may be written plain consists of words. -/
theorem plainText_of_allowsPlain {cs : List Char} (h : allowsPlain cs = true)
    (hne : cs ≠ []) : PlainText cs := by
  unfold allowsPlain at h
  simp only [Bool.and_eq_true, Bool.not_eq_true', List.all_eq_true, List.any_eq_false] at h
  obtain ⟨⟨⟨⟨hprintable, hbreak⟩, hloose⟩, hstart⟩, hinner⟩ := h
  have hmarker : ∀ rest, cs ≠ '-' :: '-' :: '-' :: rest ∧
      cs ≠ '.' :: '.' :: '.' :: rest := by
    intro rest
    constructor <;> rintro rfl <;> cases hstart
  cases cs with
  | nil => exact absurd rfl hne
  | cons a cs =>
    rw [hasLooseEnd, Bool.or_eq_false_iff] at hloose
    have hspace : isSpace a = false := by
      have hfirst : (isSpace a || isBreak a) = false := hloose.1
      exact (Bool.or_eq_false_iff.mp hfirst).1
    have hsolid : isGap a = false ∧ isBreak a = false :=
      ⟨isGap_of_isPrintable (hprintable a List.mem_cons_self) hspace,
        Bool.eq_false_iff.mpr (hbreak a List.mem_cons_self)⟩
    have hchars : ∀ ch ∈ cs, (isGap ch = false ∧ isBreak ch = false) ∨ ch = ' ' := by
      intro ch hch
      by_cases hch' : ch = ' '
      · exact Or.inr hch'
      · exact Or.inl ⟨isGap_of_isPrintable (hprintable ch (List.mem_cons_of_mem a hch))
          (beq_eq_false_iff_ne.mpr hch'),
          Bool.eq_false_iff.mpr (hbreak ch (List.mem_cons_of_mem a hch))⟩
    have hlast : (a :: cs).getLast? ≠ some ' ' := by
      intro hlast
      have hend := hloose.2
      rw [hlast] at hend
      cases hend
    -- The first character is no sign that starts something else.
    have hhead : PlainHead a cs := by
      unfold startsLikeOther at hstart
      split at hstart
      · cases hstart
      · cases hstart
      · next heq =>
        obtain ⟨rfl, rfl⟩ := List.cons.inj heq
        rw [Bool.or_eq_false_iff, Bool.and_eq_false_iff] at hstart
        refine ⟨hsolid, hstart.1, fun hsign => ?_, ?_⟩
        · rcases hstart.2 with hnot | hnot
          · rw [hsign] at hnot
            cases hnot
          · exact hnot
        · rintro rfl
          cases hprintable '\ufeff' List.mem_cons_self
      · next heq => cases heq
    have hcolon : a = ':' → atGapOrEnd cs = false := by
      rintro rfl
      exact hhead.spaced (by decide)
    exact ⟨(worded_of_spaced hchars).1 a hsolid hcolon hinner hlast,
      ⟨a, cs, rfl, hhead⟩, hmarker⟩

section
variable {indent : Nat} {r t cs : List Char} {broken : Bool} {c : Cursor}

/-- No document starts or ends where a plain text stands. -/
theorem PlainText.not_atBoundary (h : PlainText cs) (hrest : c.rest = cs ++ r)
    (hend : PlainEnd indent r broken t) : c.atBoundary = false := by
  have hr : ∀ x rest, r = x :: rest → x = ':' ∨ x = '\n' := by
    intro x rest heq
    cases hend with
    | colon _ => exact Or.inl (List.cons.inj heq).1.symm
    | line _ _ => exact Or.inr (List.cons.inj heq).1.symm
  have hmarker : ∀ mark, (mark = '-' ∨ mark = '.') → c.atMarker mark = false := by
    intro mark hmark
    have hnot : ∀ rest, r ≠ mark :: rest := by
      intro rest heq
      rcases hr mark rest heq with h | h <;> rcases hmark with h' | h' <;>
        rw [h] at h' <;> cases h'
    -- The three characters would stand in the text, or reach beyond its end.
    have hthree : ∀ rest, cs ++ r ≠ mark :: mark :: mark :: rest := by
      intro rest heq
      match cs, h.worded.ne_nil, h.marker with
      | [x], _, _ => exact hnot _ (List.cons.inj heq).2
      | [x, y], _, _ => exact hnot _ (List.cons.inj (List.cons.inj heq).2).2
      | x :: y :: z :: more, _, hmarker =>
        obtain ⟨rfl, heq⟩ := List.cons.inj heq
        obtain ⟨rfl, heq⟩ := List.cons.inj heq
        obtain ⟨rfl, -⟩ := List.cons.inj heq
        rcases hmark with rfl | rfl
        · exact (hmarker more).1 rfl
        · exact (hmarker more).2 rfl
    rw [Cursor.atMarker, Bool.and_eq_false_iff]
    right
    rw [hrest]
    split
    · next a b d rest heq =>
      refine Bool.eq_false_iff.mpr fun hall => ?_
      simp only [Bool.and_eq_true, beq_iff_eq] at hall
      obtain ⟨⟨⟨rfl, rfl⟩, rfl⟩, -⟩ := hall
      exact hthree rest heq
    · rfl
  rw [Cursor.atBoundary, hmarker '-' (Or.inl rfl), hmarker '.' (Or.inr rfl)]
  rfl

/-- A plain text is read to its end. -/
theorem PlainText.readPlain (h : PlainText cs) (hrest : c.rest = cs ++ r)
    (hend : PlainEnd indent r broken t) (hcolumn : indent ≤ c.column + 1) :
    readPlain false indent c = some (String.ofList cs, broken, c.beyond (cs ++ t)) := by
  have hhead : cs.head? ≠ some '#' := by
    obtain ⟨ch, rest, rfl, hch⟩ := h.head
    intro heq
    exact hch.ne (by decide) (Option.some.inj heq)
  have hfuel : cs.length < c.rest.length + 1 := by
    rw [hrest, List.length_append]
    omega
  rw [Yaml.readPlain,
    h.worded.plainRest hend hrest hhead (h.not_atBoundary hrest hend) hcolumn hfuel]
  show some (String.ofList (cs.reverse ++ []).reverse, _) = _
  rw [List.append_nil, List.reverse_reverse]

end

end Workplan.Yaml
