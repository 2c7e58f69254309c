import Mathlib.Tactic.Lemma
import Workplan.Yaml.Layout

/-!
# Moving over text

Where a cursor is after a piece of text depends on that text alone (`Cursor.beyond`):
the readers of scalars are described by what they answer and by the text that they move
over.  The breaks of a printed text are one character each, so that no piece of it ends
inside a break.
-/

namespace Workplan.Yaml

/-! ## Cursors -/

theorem eq_false_of_any {q : Char → Bool} {cs : List Char} (h : cs.any q = false) :
    ∀ ch ∈ cs, q ch = false :=
  fun ch hch => Bool.eq_false_iff.mpr (List.any_eq_false.mp h ch hch)

/-- The cursor behind one character. -/
def Cursor.past (ch : Char) (c : Cursor) : Cursor :=
  if isBreak ch then ⟨c.rest.drop 1, c.index + 1, c.line + 1, 0⟩ else c.skip 1

/-- The cursor behind a text. -/
def Cursor.beyond : List Char → Cursor → Cursor
  | [], c => c
  | ch :: t, c => beyond t (c.past ch)

namespace Cursor
variable {c : Cursor} {ch : Char} {t r : List Char}

@[simp] theorem beyond_nil (c : Cursor) : c.beyond [] = c := rfl

theorem beyond_cons (ch : Char) (t : List Char) (c : Cursor) :
    c.beyond (ch :: t) = (c.beyond [ch]).beyond t := rfl

/-- To move over two texts is to move over the one and then over the other. -/
theorem beyond_append (t u : List Char) (c : Cursor) :
    c.beyond (t ++ u) = (c.beyond t).beyond u := by
  induction t generalizing c with
  | nil => rfl
  | cons ch t ih => exact ih (c.past ch)

/-- A cursor moves over a character by leaving it behind. -/
lemma rest_past (ch : Char) (c : Cursor) : (c.past ch).rest = c.rest.drop 1 := by
  unfold past
  split <;> rfl

lemma index_past (ch : Char) (c : Cursor) : (c.past ch).index = c.index + 1 := by
  unfold past
  split <;> rfl

/-- What is left behind a text. -/
theorem rest_beyond (h : c.rest = t ++ r) : (c.beyond t).rest = r := by
  induction t generalizing c with
  | nil => exact h
  | cons ch t ih =>
    apply ih
    rw [rest_past, h]
    rfl

/-- The index counts all characters. -/
theorem index_beyond (t : List Char) (c : Cursor) :
    (c.beyond t).index = c.index + t.length := by
  induction t generalizing c with
  | nil => rfl
  | cons ch t ih =>
    rw [beyond, ih, index_past, List.length_cons]
    omega

/-- Lines are only counted up. -/
theorem line_le_beyond (t : List Char) (c : Cursor) : c.line ≤ (c.beyond t).line := by
  induction t generalizing c with
  | nil => exact Nat.le_refl _
  | cons ch t ih =>
    refine Nat.le_trans ?_ (ih (c.past ch))
    unfold past
    split
    · exact Nat.le_succ _
    · exact Nat.le_refl _

/-- A character that is no break is skipped on its line. -/
theorem past_of_not_break (h : isBreak ch = false) (c : Cursor) : c.past ch = c.skip 1 := by
  rw [past, h]
  rfl

lemma skip_skip (m n : Nat) (c : Cursor) : (c.skip m).skip n = c.skip (m + n) := by
  unfold skip
  simp only [List.drop_drop, Nat.add_assoc]

/-- On one line, moving is skipping. -/
theorem beyond_eq_skip (h : ∀ ch ∈ t, isBreak ch = false) (c : Cursor) :
    c.beyond t = c.skip t.length := by
  induction t generalizing c with
  | nil => rfl
  | cons ch t ih =>
    rw [List.forall_mem_cons] at h
    rw [beyond, ih h.2, past_of_not_break h.1, skip_skip, List.length_cons, Nat.add_comm]

/-- A text without a break stays on its line. -/
theorem line_beyond_of_one_line (h : ∀ ch ∈ t, isBreak ch = false) (c : Cursor) :
    (c.beyond t).line = c.line := by
  rw [beyond_eq_skip h]
  rfl

/-- There the column counts its characters. -/
theorem column_beyond_of_one_line (h : ∀ ch ∈ t, isBreak ch = false) (c : Cursor) :
    (c.beyond t).column = c.column + t.length := by
  rw [beyond_eq_skip h]
  rfl

/-- Behind a break the columns begin anew. -/
theorem column_beyond_break (h : isBreak ch = true) (c : Cursor) :
    (c.beyond [ch]).column = 0 := by
  show (c.past ch).column = 0
  rw [past, h]
  rfl

theorem line_beyond_break (h : isBreak ch = true) (c : Cursor) :
    (c.beyond [ch]).line = c.line + 1 := by
  show (c.past ch).line = c.line + 1
  rw [past, h]
  rfl

/-- Documents are divided at the start of a line only. -/
theorem not_atBoundary (h : 0 < c.column) : c.atBoundary = false := by
  have hcolumn : (c.column == 0) = false := beq_eq_false_iff_ne.mpr (by omega)
  rw [atBoundary, atMarker, atMarker, hcolumn, Bool.false_and, Bool.false_and]
  rfl

end Cursor

/-! ## Blanks and breaks -/

theorem isBreak_of_mem_blanks {n : Nat} : ∀ ch ∈ blanks n, isBreak ch = false := by
  intro ch hch
  rw [List.eq_of_mem_replicate hch]
  rfl

@[simp] theorem length_blanks (n : Nat) : (blanks n).length = n := List.length_replicate

/-- The column behind a break and blanks. -/
theorem column_beyond_break_blanks {ch : Char} (h : isBreak ch = true)
    (n : Nat) (c : Cursor) :
    (c.beyond (ch :: blanks n)).column = n := by
  rw [Cursor.beyond_cons, Cursor.column_beyond_of_one_line isBreak_of_mem_blanks,
    Cursor.column_beyond_break h, length_blanks, Nat.zero_add]

/-- A break that may be printed. -/
def isPrintedBreak (ch : Char) : Bool :=
  isPrintable ch && isBreak ch

/-- There are three breaks that may be printed. -/
theorem isPrintedBreak_iff {ch : Char} :
    isPrintedBreak ch = true ↔ ch = '\n' ∨ ch = '\u2028' ∨ ch = '\u2029' := by
  constructor
  · intro h
    obtain ⟨hprintable, hbreak⟩ := Bool.and_eq_true_iff.mp h
    unfold isBreak at hbreak
    simp only [Bool.or_eq_true, beq_iff_eq] at hbreak
    rcases hbreak with (((rfl | rfl) | rfl) | rfl) | rfl
    · exact Or.inl rfl
    · exact absurd hprintable (by decide)
    · exact absurd hprintable (by decide)
    · exact Or.inr (Or.inl rfl)
    · exact Or.inr (Or.inr rfl)
  · rintro (rfl | rfl | rfl) <;> decide

theorem isBreak_of_isPrintedBreak {ch : Char} (h : isPrintedBreak ch = true) :
    isBreak ch = true :=
  (Bool.and_eq_true_iff.mp h).2

/-- The only printable blank is the space. -/
theorem isGap_of_isPrintable {ch : Char} (hprintable : isPrintable ch = true)
    (hspace : isSpace ch = false) :
    isGap ch = false := by
  rw [isGap, Bool.or_eq_false_iff]
  refine ⟨hspace, beq_eq_false_iff_ne.mpr ?_⟩
  rintro rfl
  cases hprintable

/-- A printed break reads as itself. -/
theorem lineBreak?_of_break {c : Cursor} {ch : Char} {r : List Char} (h : c.rest = ch :: r)
    (hch : isPrintedBreak ch = true) : c.lineBreak? = some (ch, c.beyond [ch]) := by
  have hpast : c.beyond [ch] = ⟨c.rest.drop 1, c.index + 1, c.line + 1, 0⟩ := by
    show c.past ch = _
    rw [Cursor.past, isBreak_of_isPrintedBreak hch]
    rfl
  rw [hpast]
  unfold Cursor.lineBreak?
  rw [h]
  rcases isPrintedBreak_iff.mp hch with rfl | rfl | rfl <;> rfl

/-- No break is found where none stands. -/
theorem lineBreak?_eq_none {c : Cursor}
    (h : ∀ ch, c.rest.head? = some ch → isBreak ch = false) :
    c.lineBreak? = none := by
  unfold Cursor.lineBreak?
  cases hrest : c.rest with
  | nil => rfl
  | cons ch r =>
    have hch := h ch (by rw [hrest]; rfl)
    split <;> first | rfl | skip
    all_goals
      next heq =>
        rw [(List.cons.inj heq).1] at hch
        exact absurd hch (by decide)

/-- The column behind breaks and blanks. -/
theorem column_beyond_breaks_blanks {b : Char} {bs : List Char}
    (hb : isPrintedBreak b = true) (hbs : ∀ b ∈ bs, isPrintedBreak b = true)
    (k : Nat) (c : Cursor) :
    (c.beyond (b :: bs ++ blanks k)).column = k := by
  induction bs generalizing b c with
  | nil => exact column_beyond_break_blanks (isBreak_of_isPrintedBreak hb) k c
  | cons b' bs ih =>
    rw [List.forall_mem_cons] at hbs
    exact ih hbs.1 hbs.2 (c.beyond [b])

/-! ## Gaps -/

/-- What follows is neither a blank nor a break. -/
def Solid (r : List Char) : Prop :=
  ∀ ch, r.head? = some ch → isGap ch = false ∧ isBreak ch = false

theorem Solid.head?_ne {r : List Char} {ch : Char} (h : Solid r) (hch : isGap ch = true) :
    r.head? ≠ some ch := by
  intro hhead
  have hgap := (h ch hhead).1
  rw [hch] at hgap
  cases hgap

/-- No break is found in front of what is solid. -/
theorem Solid.lineBreak? {c : Cursor} (h : Solid c.rest) : c.lineBreak? = none :=
  lineBreak?_eq_none fun ch hch => (h ch hch).2

/-- A gap ends where something solid follows. -/
lemma gap_of_solid {c : Cursor} (h : Solid c.rest) (indent : Option Nat)
    (fuel : Nat) (g : Gap) :
    c.gap indent fuel g = some (g, c) := by
  cases fuel with
  | zero => rfl
  | succ fuel =>
    unfold Cursor.gap
    rw [h.lineBreak?]
    cases hrest : c.rest with
    | nil => rfl
    | cons ch r =>
      have hch := (h ch (by rw [hrest]; rfl)).1
      dsimp only
      rw [hch]
      rfl

lemma not_break_of_blank {c : Cursor} {r : List Char} (h : c.rest = ' ' :: r) :
    c.lineBreak? = none := by
  refine lineBreak?_eq_none fun ch hch => ?_
  rw [h] at hch
  obtain rfl := Option.some.inj hch
  rfl

lemma rest_skip_one {c : Cursor} {ch : Char} {r : List Char} (h : c.rest = ch :: r) :
    (c.skip 1).rest = r := by
  show c.rest.drop 1 = r
  rw [h]
  rfl

/-- Blanks on one line. -/
theorem gap_blanks {c : Cursor} {n : Nat} {r : List Char} (h : c.rest = blanks n ++ r)
    (hr : Solid r) (indent : Option Nat) {fuel : Nat} (hfuel : n ≤ fuel)
    (seen : List Char) :
    c.gap indent fuel ⟨seen, false, [], []⟩ = some (⟨seen ++ blanks n, false, [], []⟩,
      c.beyond (blanks n)) := by
  induction n generalizing c fuel seen with
  | zero =>
    have hsolid : Solid c.rest := by rw [h]; exact hr
    rw [gap_of_solid hsolid, show blanks 0 = [] from rfl, List.append_nil,
      Cursor.beyond_nil]
  | succ n ih =>
    obtain ⟨fuel, rfl⟩ : ∃ f, fuel = f + 1 := ⟨fuel - 1, by omega⟩
    have hrest : c.rest = ' ' :: (blanks n ++ r) := h
    unfold Cursor.gap
    rw [not_break_of_blank hrest, hrest]
    have hnext : (c.skip 1).rest = blanks n ++ r := rest_skip_one hrest
    show (c.skip 1).gap indent fuel ⟨seen ++ [' '], false, [], []⟩ = _
    rw [ih hnext (by omega), List.append_assoc]
    rfl

/-- Blanks behind breaks are indentation. -/
lemma gap_indentation {c : Cursor} {n : Nat} {r : List Char} (h : c.rest = blanks n ++ r)
    (hr : Solid r) (indent : Option Nat) {fuel : Nat} (hfuel : n ≤ fuel) {g : Gap}
    (hg : g.broken = true) :
    c.gap indent fuel g = some (g, c.beyond (blanks n)) := by
  induction n generalizing c fuel with
  | zero =>
    have hsolid : Solid c.rest := by rw [h]; exact hr
    rw [gap_of_solid hsolid]
    rfl
  | succ n ih =>
    obtain ⟨fuel, rfl⟩ : ∃ f, fuel = f + 1 := ⟨fuel - 1, by omega⟩
    have hrest : c.rest = ' ' :: (blanks n ++ r) := h
    unfold Cursor.gap
    rw [not_break_of_blank hrest, hrest]
    have hnext : (c.skip 1).rest = blanks n ++ r := rest_skip_one hrest
    dsimp only
    rw [if_pos (by rfl), if_pos hg, if_neg (by simp)]
    exact ih hnext (by omega)

/-- Further breaks, and the indentation behind them. -/
lemma gap_further {c : Cursor} {bs r : List Char} {n : Nat}
    (h : c.rest = bs ++ (blanks n ++ r)) (hbs : ∀ b ∈ bs, isPrintedBreak b = true)
    (hr : Solid r) (indent : Option Nat) {fuel : Nat} (hfuel : bs.length + n ≤ fuel)
    (first further : List Char) :
    c.gap indent fuel ⟨[], true, first, further⟩
      = some (⟨[], true, first, further ++ bs⟩, c.beyond (bs ++ blanks n)) := by
  induction bs generalizing c fuel further with
  | nil =>
    rw [List.append_nil]
    exact gap_indentation h hr indent (by simpa using hfuel) rfl
  | cons b bs ih =>
    rw [List.length_cons] at hfuel
    obtain ⟨fuel, rfl⟩ : ∃ f, fuel = f + 1 := ⟨fuel - 1, by omega⟩
    rw [List.forall_mem_cons] at hbs
    have hnext : (c.beyond [b]).rest = bs ++ (blanks n ++ r) := Cursor.rest_beyond h
    unfold Cursor.gap
    rw [lineBreak?_of_break h hbs.1]
    show (c.beyond [b]).gap indent fuel ⟨[], true, first, further ++ [b]⟩ = _
    rw [ih hnext hbs.2 (by omega), List.append_assoc]
    rfl

/-- Breaks, and the indentation behind them. -/
theorem gap_breaks {c : Cursor} {b : Char} {bs r : List Char} {n : Nat}
    (h : c.rest = b :: bs ++ (blanks n ++ r)) (hb : isPrintedBreak b = true)
    (hbs : ∀ b ∈ bs, isPrintedBreak b = true) (hr : Solid r) (indent : Option Nat)
    {fuel : Nat} (hfuel : bs.length + n < fuel) :
    c.gap indent fuel (Gap.empty false) = some (⟨[], true, [b], bs⟩,
      c.beyond (b :: bs ++ blanks n)) := by
  obtain ⟨fuel, rfl⟩ : ∃ f, fuel = f + 1 := ⟨fuel - 1, by omega⟩
  have hnext : (c.beyond [b]).rest = bs ++ (blanks n ++ r) := Cursor.rest_beyond h
  unfold Cursor.gap
  rw [lineBreak?_of_break h hb]
  show (c.beyond [b]).gap indent fuel ⟨[], true, [b], []⟩ = _
  rw [gap_further hnext hbs hr indent (by omega)]
  rfl

end Workplan.Yaml
