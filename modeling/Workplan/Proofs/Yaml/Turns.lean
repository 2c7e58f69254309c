import Mathlib.Tactic.Lemma
import Workplan.Proofs.Yaml.Gaps
import Workplan.Yaml.Tokens

/-!
# Turns of the scanner

The scanner takes turns: it moves to the next token, closes the collections that are
deeper than its column (`Pass.settle`), and reads one token.  `Reads` is a run of such
turns, each of which leaves less of the text, so that the bound on their number is no
restriction (`Reads.toEnd`).

What a turn does is said about passes outside brackets whose key candidate, if there is
one, stands on an earlier line (`Ready`), as it is where a printed value starts or ends.
-/

namespace Workplan.Yaml.Pass

/-! ## Runs -/

/-- Moves to the next token and closes the collections right of it. -/
def settle (p : Pass) : Pass :=
  let q := toNextToken (p.cursor.rest.length + 1) p
  q.closeBlocks (some q.cursor.column)

/-- Turns of the scanner, one after the other. -/
inductive Reads : Pass → Pass → Prop
  | refl (p : Pass) : Reads p p
  | turn {p q r : Pass} (hmore : p.settle.cursor.rest ≠ [])
      (hread : readToken p.settle = some q)
      (hless : q.cursor.rest.length < p.cursor.rest.length) (hrest : Reads q r) : Reads p r

theorem Reads.trans {p q r : Pass} (h : Reads p q) (h' : Reads q r) : Reads p r := by
  induction h with
  | refl p => exact h'
  | turn hmore hread hless _ ih => exact .turn hmore hread hless (ih h')

/-- A run does not depend on the bound, as long as it is above the number of characters. -/
theorem Reads.toEnd {p q : Pass} {result : Option Pass} (h : Reads p q)
    (hq : ∀ fuel, q.cursor.rest.length < fuel → toEnd fuel q = result) :
    ∀ fuel, p.cursor.rest.length < fuel → toEnd fuel p = result := by
  induction h with
  | refl p => exact hq
  | @turn p q r hmore hread hless _ ih =>
    intro fuel hfuel
    obtain ⟨fuel, rfl⟩ : ∃ f, fuel = f + 1 := ⟨fuel - 1, by omega⟩
    have hempty : p.settle.cursor.rest.isEmpty = false :=
      List.isEmpty_eq_false_iff.mpr hmore
    show (if p.settle.cursor.rest.isEmpty then
      _ else (readToken p.settle).bind (Pass.toEnd fuel)) = result
    rw [hempty, hread]
    exact ih hq fuel (by omega)

/-! ## Ready passes -/

/-- A pass outside brackets: what is left of the text, its column, the open collections,
the tokens so far and whether a key may start.  A key candidate is on an earlier line, and
may be given up. -/
structure Ready (p : Pass) (text : List Char) (col : Nat) (cols : List Nat)
    (ts : List Token) (allow : Bool) :
    Prop where
  rest : p.cursor.rest = text
  column : p.cursor.column = col
  indents : p.indents = cols
  tokens : p.tokens = ts
  count : p.count = ts.length
  outer : p.outerKeys = []
  allowed : p.keyAllowed = allow
  candidate : ∀ k, p.keyCandidate = some k → k.required = false ∧ k.line < p.cursor.line

section
variable {p : Pass} {rest : List Char} {col : Nat} {cols : List Nat} {ts : List Token}
  {allowed : Bool}

theorem Ready.inFlow (h : Ready p rest col cols ts allowed) : p.inFlow = false := by
  rw [Pass.inFlow, h.outer]
  rfl

/-- Nothing stands in the way of giving up the key candidate. -/
theorem Ready.dropKey (h : Ready p rest col cols ts allowed) :
    p.dropKey = some { p with keyCandidate := none } := by
  have hrequired : (p.keyCandidate.any fun k => k.required) = false := by
    cases hk : p.keyCandidate with
    | none => rfl
    | some k => exact (h.candidate k hk).1
  rw [Pass.dropKey, hrequired]
  rfl

/-! ## Settling -/

/-- What a token starts with, if there is one. -/
def Starts (rest : List Char) : Prop :=
  ∀ ch, rest.head? = some ch → isGap ch = false ∧ isBreak ch = false ∧
    ch ≠ '#' ∧ ch ≠ '\ufeff'

theorem Starts.solid (h : Starts rest) :
    Solid rest := fun ch hch => ⟨(h ch hch).1, (h ch hch).2.1⟩

lemma skipWhile_blanks {c : Cursor} {n : Nat} (h : c.rest = blanks n ++ rest)
    (hrest : Starts rest) (q : Char → Bool) (hq : ∀ ch, q ch = true → isGap ch = true)
    (hspace : q ' ' = true) :
    c.skipWhile q = c.beyond (blanks n) := by
  have hblanks : ∀ ch ∈ blanks n, q ch = true := fun ch hch => by
    rw [List.eq_of_mem_replicate hch, hspace]
  have htake : c.rest.takeWhile q = blanks n := by
    rw [h, List.takeWhile_append_of_pos hblanks]
    cases rest with
    | nil => rw [List.takeWhile_nil, List.append_nil]
    | cons ch rest =>
      have hch : ¬ q ch = true := fun hch => by
        have hgap := (hrest ch rfl).1
        rw [hq ch hch] at hgap
        cases hgap
      rw [List.takeWhile_cons_of_neg hch, List.append_nil]
  rw [Cursor.skipWhile, Cursor.span, htake, Cursor.beyond_eq_skip isBreak_of_mem_blanks]

/-- Over blanks to a token of the same line. -/
theorem toNextToken_blanks {n : Nat} (h : p.cursor.rest = blanks n ++ rest)
    (hrest : Starts rest) (fuel : Nat) :
    toNextToken (fuel + 1) p = { p with cursor := p.cursor.beyond (blanks n) } := by
  -- A byte order mark would be skipped, but the token does not start with one.
  have hmark : (p.cursor.column == 0 && p.cursor.rest.head? == some '\ufeff') = false := by
    rw [Bool.and_eq_false_iff]
    right
    rw [h, beq_eq_false_iff_ne]
    cases n with
    | zero => exact fun hch => (hrest _ hch).2.2.2 rfl
    | succ n => exact fun hch => by cases hch
  have hnext := Cursor.rest_beyond h
  have hcomment : ((p.cursor.beyond (blanks n)).rest.head? == some '#') = false := by
    rw [hnext, beq_eq_false_iff_ne]
    exact fun hch => (hrest _ hch).2.2.1 rfl
  -- Tabs may or may not count among the blanks here; either way only gap characters do.
  have hgap : ∀ ch, (ch == ' ' || (ch == '\t' && (p.inFlow || !p.keyAllowed))) = true →
      isGap ch = true := by
    intro ch hch
    rw [Bool.or_eq_true, Bool.and_eq_true] at hch
    rw [isGap, Bool.or_eq_true]
    exact hch.imp id And.left
  have hbreak : (p.cursor.beyond (blanks n)).lineBreak? = none :=
    lineBreak?_eq_none (by rw [hnext]; exact fun ch hch => (hrest ch hch).2.1)
  rw [toNextToken, hmark]
  simp only [Bool.false_eq_true, if_false, skipWhile_blanks h hrest _ hgap (by rfl),
    hcomment, hbreak]

/-- Over a line feed and blanks to a token of the next line, where a key may start. -/
lemma toNextToken_feed {n : Nat} (h : p.cursor.rest = '\n' :: (blanks n ++ rest))
    (hrest : Starts rest) (houter : p.outerKeys = []) (fuel : Nat) :
    toNextToken (fuel + 2) p =
      { p with cursor := p.cursor.beyond ('\n' :: blanks n), keyAllowed := true } := by
  have hmark : (p.cursor.column == 0 && p.cursor.rest.head? == some '\ufeff') = false := by
    rw [h, Bool.and_eq_false_iff]
    exact Or.inr rfl
  -- The line feed ends the blanks at once, so the first round takes it and the second the
  -- blanks behind it.
  have hskip : (p.cursor.skipWhile fun ch =>
      ch == ' ' || (ch == '\t' && (p.inFlow || !p.keyAllowed))) = p.cursor := by
    rw [Cursor.skipWhile, Cursor.span, h]
    rfl
  have hcomment : (p.cursor.rest.head? == some '#') = false := by
    rw [h]
    rfl
  have hflow : p.inFlow = false := by
    rw [Pass.inFlow, houter]
    rfl
  have hnext : (p.cursor.beyond ['\n']).rest = blanks n ++ rest := Cursor.rest_beyond h
  rw [toNextToken, hmark]
  simp only [Bool.false_eq_true, if_false, hskip, hcomment,
    lineBreak?_of_break h (by decide)]
  rw [hflow, Bool.not_false, Bool.or_true, toNextToken_blanks hnext hrest fuel]
  rfl

end

/-! ## Closing -/

/-- The columns of the open collections are replaced when collections are closed. -/
lemma closeIndents_indents (column : Option Nat) (opened cols : List Nat) (p : Pass) :
    closeIndents column opened { p with indents := cols } =
      closeIndents column opened p := by
  induction opened generalizing p with
  | nil => rfl
  | cons i rest ih =>
    rw [closeIndents, closeIndents]
    split
    · exact ih (p.push .blockEnd)
    · rfl

section
variable {p : Pass} {rest : List Char} {col k : Nat} {cols : List Nat} {ts : List Token}
  {allowed : Bool}

/-- A collection right of a column is closed. -/
lemma Ready.closeBlocks_cons {i : Nat} (h : Ready p rest col (i :: cols) ts allowed)
    (hk : k < i) :
    ∃ q, p.closeBlocks (some k) = q.closeBlocks (some k) ∧
      Ready q rest col cols (.blockEnd :: ts) allowed := by
  refine ⟨{ p.push .blockEnd with indents := cols }, ?_, ?_⟩
  · have hflow : ({ p.push .blockEnd with indents := cols } : Pass).inFlow = false :=
      h.inFlow
    rw [closeBlocks, h.inFlow, closeBlocks, hflow, h.indents, closeIndents]
    simp only [Option.all_some, hk, decide_true, Bool.false_eq_true, if_false, if_true]
    exact (closeIndents_indents (some k) cols cols (p.push .blockEnd)).symm
  · exact ⟨h.rest, h.column, rfl, by rw [← h.tokens]; rfl,
      by rw [List.length_cons, ← h.count]; rfl, h.outer, h.allowed, h.candidate⟩

/-- Nothing is right of the column. -/
lemma closeBlocks_self (houter : p.outerKeys = [])
    (hk : ∀ i, p.indents.head? = some i → i ≤ k) :
    p.closeBlocks (some k) = p := by
  have hflow : p.inFlow = false := by
    rw [Pass.inFlow, houter]
    rfl
  rw [closeBlocks, hflow]
  -- The columns are rewritten to themselves, so the pass is the same record.
  generalize hcols : p.indents = cols at hk
  have hsame : ({ p with indents := cols } : Pass) = p := by rw [← hcols]
  cases cols with
  | nil => exact hsame
  | cons i cols =>
    have hle := hk i rfl
    rw [closeIndents]
    simp only [Option.all_some, Nat.not_lt.mpr hle, decide_false,
      Bool.false_eq_true, if_false]
    exact hsame

/-- No block is closed that is not further right. -/
lemma Ready.closeBlocks_self (h : Ready p rest col cols ts allowed)
    (hk : ∀ i, cols.head? = some i → i ≤ k) :
    p.closeBlocks (some k) = p :=
  Pass.closeBlocks_self h.outer (by rw [h.indents]; exact hk)

/-- A pass that is at a token already. -/
theorem settle_self (hrest : Starts p.cursor.rest) (houter : p.outerKeys = [])
    (hk : ∀ i, p.indents.head? = some i → i ≤ p.cursor.column) : p.settle = p := by
  rw [settle, toNextToken_blanks (n := 0) rfl hrest]
  exact Pass.closeBlocks_self houter hk

end

/-! ## Landing -/

/-- A pass whose next turn is at a column of a new line, once the collections right of it
are closed. -/
def Lands (p : Pass) (rest : List Char) (col : Nat) (cols : List Nat) (ts : List Token) :
    Prop :=
  rest.length ≤ p.cursor.rest.length ∧
    ∃ q, p.settle = q.closeBlocks (some col) ∧ Ready q rest col cols ts true

section
variable {p : Pass} {rest : List Char} {col k i : Nat} {cols : List Nat} {ts : List Token}
  {allowed : Bool}

/-- What lands further left closes a block. -/
theorem Lands.close (h : Lands p rest col (i :: cols) ts) (hi : col < i) :
    Lands p rest col cols (.blockEnd :: ts) := by
  obtain ⟨hle, q, hq, hready⟩ := h
  obtain ⟨q', hq', hready'⟩ := hready.closeBlocks_cons hi
  exact ⟨hle, q', hq.trans hq', hready'⟩

/-- When all blocks are closed the pass is ready for what follows. -/
theorem Lands.settle (h : Lands p rest col cols ts)
    (hcols : ∀ i, cols.head? = some i → i ≤ col) :
    Ready p.settle rest col cols ts true := by
  obtain ⟨-, q, hq, hready⟩ := h
  rw [hq, hready.closeBlocks_self hcols]
  exact hready

/-- A pass that is there already. -/
theorem Ready.lands (h : Ready p rest col cols ts true) (hrest : Starts rest) :
    Lands p rest col cols ts := by
  have hblanks : p.cursor.rest = blanks 0 ++ rest := h.rest
  have hsettle : p.settle = p.closeBlocks (some p.cursor.column) := by
    rw [Pass.settle, toNextToken_blanks hblanks hrest]
    rfl
  rw [h.column] at hsettle
  exact ⟨Nat.le_of_eq (by rw [h.rest]), p, hsettle, h⟩

/-- A pass at the end of a line. -/
theorem lands_of_feed (hrest : p.cursor.rest = '\n' :: (blanks k ++ rest))
    (hstarts : Starts rest) (hcols : p.indents = cols) (hts : p.tokens = ts)
    (hcount : p.count = ts.length) (houter : p.outerKeys = [])
    (hkey : ∀ key, p.keyCandidate = some key → key.required = false ∧
      key.line ≤ p.cursor.line) :
    Lands p rest k cols ts := by
  have hline : p.cursor.line < (p.cursor.beyond ('\n' :: blanks k)).line := by
    rw [Cursor.beyond_cons]
    refine Nat.lt_of_lt_of_le ?_ (Cursor.line_le_beyond _ _)
    rw [Cursor.line_beyond_break (by decide)]
    exact Nat.lt_succ_self _
  have hcolumn : (p.cursor.beyond ('\n' :: blanks k)).column = k :=
    column_beyond_break_blanks (by decide) k _
  have hle : rest.length ≤ p.cursor.rest.length := by
    rw [hrest, List.length_cons, List.length_append]
    omega
  refine ⟨hle,
    { p with cursor := p.cursor.beyond ('\n' :: blanks k), keyAllowed := true }, ?_, ?_⟩
  -- Two rounds are needed, and the line feed alone gives that much fuel.
  · obtain ⟨fuel, hfuel⟩ : ∃ f, p.cursor.rest.length + 1 = f + 2 := by
      rw [hrest, List.length_cons]
      exact ⟨_, rfl⟩
    rw [Pass.settle, hfuel, toNextToken_feed hrest hstarts houter]
    dsimp only
    rw [hcolumn]
  · refine ⟨Cursor.rest_beyond hrest, hcolumn, hcols, hts, hcount, houter, rfl, ?_⟩
    intro key hk
    obtain ⟨hrequired, hle⟩ := hkey key hk
    exact ⟨hrequired, Nat.lt_of_le_of_lt hle hline⟩

/-- Over a blank to a token of the same line. -/
theorem Ready.settle_blank (h : Ready p (' ' :: rest) col cols ts allowed)
    (hrest : Starts rest) (hcols : ∀ i, cols.head? = some i → i ≤ col + 1) :
    Ready p.settle rest (col + 1) cols ts allowed := by
  have hblanks : p.cursor.rest = blanks 1 ++ rest := h.rest
  have hcolumn : (p.cursor.beyond (blanks 1)).column = col + 1 := by
    rw [Cursor.column_beyond_of_one_line isBreak_of_mem_blanks, h.column, length_blanks]
  have hline : (p.cursor.beyond (blanks 1)).line = p.cursor.line :=
    Cursor.line_beyond_of_one_line isBreak_of_mem_blanks _
  have hready : Ready { p with cursor := p.cursor.beyond (blanks 1) } rest
      (col + 1) cols ts allowed := by
    refine ⟨Cursor.rest_beyond hblanks, hcolumn, h.indents, h.tokens, h.count,
      h.outer, h.allowed, ?_⟩
    intro key hk
    have hkey := h.candidate key hk
    rw [← hline] at hkey
    exact hkey
  rw [Pass.settle, toNextToken_blanks hblanks hrest]
  dsimp only
  rw [hcolumn, hready.closeBlocks_self hcols]
  exact hready

end

/-! ## Signs -/

theorem atMarker_of_head {c : Cursor} {ch mark : Char} {t : List Char}
    (h : c.rest = ch :: t) (hne : ch ≠ mark) :
    c.atMarker mark = false := by
  rw [Cursor.atMarker, Bool.and_eq_false_iff]
  right
  rw [h]
  split
  · next heq =>
    rw [← (List.cons.inj heq).1, beq_eq_false_iff_ne.mpr hne]
    rfl
  · rfl

/-- Whether a collection is opened at a column, and by which token. -/
def openedCols (col : Nat) (cols : List Nat) : List Nat :=
  if cols.head?.any (col ≤ ·) then cols else col :: cols

/-- The tokens once a collection is open at a column. -/
def openedTokens (start : Token) (col : Nat) (cols : List Nat) (ts : List Token) :
    List Token :=
  if cols.head?.any (col ≤ ·) then ts else start :: ts

section
variable {p : Pass} {t : List Char} {col : Nat} {cols : List Nat} {ts : List Token}
  {allowed : Bool}

lemma Ready.openBlock (h : Ready p t col cols ts allowed) (start : Token) :
    Ready (p.openBlock col none start) t col (openedCols col cols)
      (openedTokens start col cols ts) allowed := by
  unfold Pass.openBlock openedCols openedTokens
  rw [h.inFlow, h.indents, if_neg (by decide)]
  split
  · exact h
  · exact ⟨h.rest, h.column, by rw [← h.indents]; rfl, by rw [← h.tokens]; rfl,
      by rw [List.length_cons, ← h.count]; rfl, h.outer, h.allowed, h.candidate⟩

/-- A token of one character takes the place of the key candidate. -/
theorem Ready.take {ch : Char} (h : Ready p (ch :: t) col cols ts allowed) (token : Token)
    (allow : Bool) :
    Ready (Pass.take 1 token { p with keyCandidate := none, keyAllowed := allow }) t
      (col + 1) cols (token :: ts) allow := by
  refine ⟨?_, ?_, h.indents, ?_, ?_, h.outer, rfl, fun k hk => by cases hk⟩
  · show p.cursor.rest.drop 1 = t
    rw [h.rest]
    rfl
  · show p.cursor.column + 1 = col + 1
    rw [h.column]
  · show token :: p.tokens = token :: ts
    rw [h.tokens]
  · show p.count + 1 = (token :: ts).length
    rw [List.length_cons, h.count]

/-- The sign of a list entry. -/
theorem Ready.readToken_entry {x : Char} (h : Ready p ('-' :: x :: t) col cols ts true)
    (hx : (isGap x || isBreak x) = true) :
    ∃ q, readToken p = some q ∧ q.keyCandidate = none ∧
      Ready q (x :: t) (col + 1) (openedCols col cols)
        (.blockEntry :: openedTokens .blockListStart col cols ts) true := by
  -- A single dash with a gap behind it does not start a document.
  have hdash : p.cursor.atMarker '-' = false := by
    have hne : (x == '-') = false := by
      rw [beq_eq_false_iff_ne]
      rintro rfl
      cases hx
    rw [Cursor.atMarker, h.rest]
    cases t with
    | nil => exact Bool.and_false _
    | cons y t =>
      dsimp only
      rw [hne, Bool.and_false, Bool.false_and, Bool.false_and, Bool.and_false]
  have hdot : p.cursor.atMarker '.' = false := atMarker_of_head h.rest (by decide)
  have hread : readToken p = p.blockEntry := by
    have hgap : atGapOrEnd (x :: t) = true := hx
    rw [readToken, h.rest]
    simp [hdash, hdot, hgap]
  have hopened := h.openBlock .blockListStart
  refine ⟨_, ?_, rfl, hopened.take .blockEntry true⟩
  rw [hread, Pass.blockEntry, h.inFlow, h.allowed, h.column]
  simp only [Bool.not_true, Bool.and_false, Bool.false_eq_true, if_false, hopened.dropKey]
  rfl

/-- The sign of a key. -/
theorem Ready.readToken_explicitKey (h : Ready p ('?' :: ' ' :: t) col cols ts true) :
    ∃ q, readToken p = some q ∧ q.keyCandidate = none ∧
      Ready q (' ' :: t) (col + 1) (openedCols col cols)
        (.key :: openedTokens .blockTableStart col cols ts) true := by
  have hdash : p.cursor.atMarker '-' = false := atMarker_of_head h.rest (by decide)
  have hdot : p.cursor.atMarker '.' = false := atMarker_of_head h.rest (by decide)
  have hread : readToken p = p.explicitKey := by
    have hgap : atGapOrEnd (' ' :: t) = true := rfl
    rw [readToken, h.rest]
    simp [hdash, hdot, hgap]
  have hopened := h.openBlock .blockTableStart
  refine ⟨_, ?_, rfl, hopened.take .key true⟩
  rw [hread, Pass.explicitKey, h.inFlow, h.allowed, h.column]
  have hflow : ({ p.openBlock col none .blockTableStart with keyCandidate :=
      none } : Pass).inFlow = false :=
    hopened.inFlow
  simp only [Bool.not_true, Bool.and_false, Bool.false_eq_true, if_false, hopened.dropKey,
    Option.bind_eq_bind, Option.bind_some, hflow, Bool.not_false]

/-- The sign of a value whose key has a sign of its own. -/
theorem Ready.readToken_explicitValue {x : Char}
    (h : Ready p (':' :: x :: t) col (col :: cols) ts true)
    (hx : (isGap x || isBreak x) = true) :
    ∃ q, readToken p = some q ∧ q.keyCandidate = none ∧
      Ready q (x :: t) (col + 1) (col :: cols) (.value :: ts) true := by
  have hdash : p.cursor.atMarker '-' = false := atMarker_of_head h.rest (by decide)
  have hdot : p.cursor.atMarker '.' = false := atMarker_of_head h.rest (by decide)
  have hread : readToken p = p.valueSign := by
    have hgap : atGapOrEnd (x :: t) = true := hx
    rw [readToken, h.rest]
    simp [hdash, hdot, hgap]
  have hfilter : p.keyCandidate.filter p.keyInReach = none := by
    cases hk : p.keyCandidate with
    | none => rfl
    | some k =>
      have hline : (k.line == p.cursor.line) = false :=
        beq_eq_false_iff_ne.mpr (Nat.ne_of_lt (h.candidate k hk).2)
      rw [Option.filter_some, keyInReach, hline, Bool.false_and]
      rfl
  have hrequired : (p.keyCandidate.any fun k => k.required) = false := by
    cases hk : p.keyCandidate with
    | none => rfl
    | some k => exact (h.candidate k hk).1
  have hopened : p.openBlock p.cursor.column none .blockTableStart = p := by
    rw [Pass.openBlock, h.inFlow, h.indents, h.column]
    simp
  refine ⟨_, ?_, rfl, h.take .value true⟩
  rw [hread, valueSign, hfilter]
  simp only [hrequired, h.inFlow, h.allowed, hopened, Bool.false_eq_true, if_false, if_true]

end

end Workplan.Yaml.Pass
