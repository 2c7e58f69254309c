import Mathlib.Tactic.Lemma
import Workplan.Proofs.Yaml.Gaps
import Workplan.Yaml.Scalars

/-!
# Blocks of lines read back

A text that ends with a break is lines, each with the breaks behind it (`Lined`), perhaps
behind breaks of its own (`lined_of_text`).  The reader of blocks takes the lines of the
right indentation and stops in front of the first that is less far to the right
(`takesUp_text`); what becomes of the last breaks is as the sign of the block says
(`ending_of_takenUp`).  Together a text written as a block reads back
(`readBlock_blockOfLines`).
-/

namespace Workplan.Yaml

/-! ## Lines -/

/-- Lines of a block behind the indentation of the first: how they are written,
what they read as up to the last break of the last line, that break, and the blank
lines behind it. -/
inductive Lined (indent : Nat) : List Char → List Char → Char → List Char → Prop
  | last {line bs : List Char} {b : Char} (hne : line ≠ [])
      (hline : ∀ ch ∈ line, isBreak ch = false)
      (hb : isPrintedBreak b = true) (hbs : ∀ b ∈ bs, isPrintedBreak b = true) :
      Lined indent (line ++ b :: bs) line b bs
  | more {line bs text body bs' : List Char} {b b' : Char} (hne : line ≠ [])
      (hline : ∀ ch ∈ line, isBreak ch = false) (htab : text.head? ≠ some '\t')
      (hb : isPrintedBreak b = true) (hbs : ∀ b ∈ bs, isPrintedBreak b = true)
      (hrest : Lined indent text body b' bs') :
      Lined indent (line ++ (b :: bs ++ (blanks indent ++ text)))
        (line ++ (b :: bs ++ body)) b' bs'

section
variable {indent k : Nat} {c : Cursor} {text body bs r : List Char} {b : Char}

/-- A line begins with a character that is no break. -/
lemma Lined.head (h : Lined indent text body b bs) :
    ∃ ch rest, text = ch :: rest ∧ isBreak ch = false := by
  have hline : ∀ line r : List Char, line ≠ [] → (∀ ch ∈ line, isBreak ch = false) →
      ∃ ch rest, line ++ r = ch :: rest ∧ isBreak ch = false := by
    intro line r hne hline
    cases line with
    | nil => exact absurd rfl hne
    | cons ch line => exact ⟨ch, _, rfl, hline ch List.mem_cons_self⟩
  cases h with
  | last hne h _ _ => exact hline _ _ hne h
  | more hne h _ _ _ _ => exact hline _ _ hne h

lemma Lined.head?_append (h : Lined indent text body b bs) (r : List Char) :
    (text ++ r).head? = text.head? := by
  obtain ⟨ch, rest, rfl, -⟩ := h.head
  rfl

lemma Lined.not_break (h : Lined indent text body b bs) :
    ∀ ch, text.head? = some ch → isBreak ch = false := by
  obtain ⟨ch, rest, rfl, hch⟩ := h.head
  intro x hx
  obtain rfl := Option.some.inj hx
  exact hch

lemma Lined.head_eq (h : Lined indent text body b bs) : body.head? = text.head? := by
  have hline : ∀ line r r' : List Char, line ≠ [] →
      (line ++ r).head? = (line ++ r').head? := by
    intro line r r' hne
    cases line with
    | nil => exact absurd rfl hne
    | cons ch line => rfl
  cases h with
  | last hne _ _ _ =>
    have hsame := hline body [] (b :: bs) hne
    rwa [List.append_nil] at hsame
  | more hne _ _ _ _ _ => exact hline _ _ _ hne

lemma takeWhile_blank_eq_nil (hr : r.head? ≠ some ' ') : r.takeWhile (· == ' ') = [] := by
  cases r with
  | nil => rfl
  | cons ch r =>
    refine List.takeWhile_cons_of_neg fun hch => hr ?_
    rw [List.head?_cons, eq_of_beq hch]

lemma length_takeWhile_blanks (k : Nat) (r : List Char) :
    ((blanks k ++ r).takeWhile (· == ' ')).length = k +
      (r.takeWhile (· == ' ')).length := by
  have hblanks : ∀ ch ∈ blanks k, (ch == ' ') = true := fun ch hch => by
    rw [List.eq_of_mem_replicate hch]
    rfl
  rw [List.takeWhile_append_of_pos hblanks, List.length_append, length_blanks]

/-- How many of the leading blanks belong to the indentation. -/
lemma min_blanks (hk : k = indent ∨ (k < indent ∧ r.head? ≠ some ' ')) :
    min ((blanks k ++ r).takeWhile (· == ' ')).length indent = k := by
  rw [length_takeWhile_blanks]
  rcases hk with rfl | ⟨hlt, hr⟩
  · omega
  · rw [takeWhile_blank_eq_nil hr, List.length_nil]
    omega

/-- Blank lines, and the indentation of the line behind them. -/
lemma blockBreaks_reads (h : c.rest = bs ++ (blanks k ++ r))
    (hbs : ∀ b ∈ bs, isPrintedBreak b = true) (hcolumn : c.column = 0)
    (hindent : 0 < indent) (hk : k = indent ∨ (k < indent ∧ r.head? ≠ some ' '))
    (hr : ∀ ch, r.head? = some ch → isBreak ch = false) (htab : r.head? ≠ some '\t')
    {fuel : Nat} (hfuel : bs.length < fuel) (breaks : List Char) (deepest : Nat) :
    ∃ deepest', blockBreaks indent fuel breaks deepest c
      = some (breaks ++ bs, deepest', c.beyond (bs ++ blanks k)) := by
  have hindent0 : indent ≠ 0 := by omega
  induction bs generalizing c fuel breaks deepest with
  | nil =>
    obtain ⟨fuel, rfl⟩ : ∃ f, fuel = f + 1 := ⟨fuel - 1, by omega⟩
    have hrest : c.rest = blanks k ++ r := h
    have hskip : c.skip k = c.beyond (blanks k) := by
      rw [Cursor.beyond_eq_skip isBreak_of_mem_blanks, length_blanks]
    have hnext := Cursor.rest_beyond hrest
    refine ⟨max deepest (c.beyond (blanks k)).column, ?_⟩
    rw [blockBreaks, hrest, hcolumn, if_neg hindent0, Nat.sub_zero,
      min_blanks hk, hskip, hnext, if_neg fun htabs => htab htabs.2,
      lineBreak?_eq_none (by rw [hnext]; exact hr), List.append_nil]
    rfl
  | cons b bs ih =>
    rw [List.length_cons] at hfuel
    obtain ⟨fuel, rfl⟩ : ∃ f, fuel = f + 1 := ⟨fuel - 1, by omega⟩
    rw [List.forall_mem_cons] at hbs
    have hbreak := isBreak_of_isPrintedBreak hbs.1
    -- A blank line of a printed block has nothing in it, not even blanks.
    have hnone : c.rest.takeWhile (· == ' ') = [] := by
      refine takeWhile_blank_eq_nil fun hb => ?_
      rw [h] at hb
      rw [Option.some.inj hb] at hbreak
      cases hbreak
    have htabs : ¬ c.rest.head? = some '\t' := by
      rw [h]
      intro hb
      rw [Option.some.inj hb] at hbreak
      cases hbreak
    have hnext : (c.beyond [b]).rest = bs ++ (blanks k ++ r) := Cursor.rest_beyond h
    have hless : bs.length < fuel := by omega
    obtain ⟨deepest', hreads⟩ :=
      ih hnext hbs.2 (Cursor.column_beyond_break hbreak c) hless (breaks ++ [b])
      (max deepest c.column)
    refine ⟨deepest', ?_⟩
    rw [blockBreaks, hnone, if_neg hindent0, List.length_nil, Nat.zero_min,
      show c.skip 0 = c from rfl]
    rw [if_neg fun hboth => htabs hboth.2, lineBreak?_of_break h hbs.1]
    dsimp only
    rw [hreads, List.append_assoc]
    rfl

/-- A line and the blank lines behind it. -/
lemma blockLines_line {line : List Char} (hne : line ≠ [])
    (hline : ∀ ch ∈ line, isBreak ch = false) (hb : isPrintedBreak b = true)
    (hbs : ∀ b ∈ bs, isPrintedBreak b = true)
    (h : c.rest = line ++ (b :: bs ++ (blanks k ++ r))) (hcolumn : c.column = indent)
    (hindent : 0 < indent) (hk : k = indent ∨ (k < indent ∧ r.head? ≠ some ' '))
    (hr : ∀ ch, r.head? = some ch → isBreak ch = false) (htab : r.head? ≠ some '\t')
    (fuel : Nat) (acc : List Char) (blank : Bool) (first further : List Char) :
    ∃ blank', blockLines true indent (fuel + 1) acc blank first further c
      = blockLines true indent fuel
        (line.reverse ++ ((first ++ further).reverse ++ acc)) blank' [b] bs
          (c.beyond (line ++ (b :: bs ++ blanks k))) := by
  have hnext := Cursor.rest_beyond h
  have hbreak := isBreak_of_isPrintedBreak hb
  have hafter : ((c.beyond line).beyond [b]).rest = bs ++ (blanks k ++ r) :=
    Cursor.rest_beyond hnext
  have hless : bs.length < ((c.beyond line).beyond [b]).rest.length + 1 := by
    rw [hafter, List.length_append]
    omega
  obtain ⟨deepest', hreads⟩ :=
    blockBreaks_reads hafter hbs (Cursor.column_beyond_break hbreak _) hindent hk hr htab
    hless [] 0
  -- The line is as far to the right as the block, and there is something on it.
  have hgo : (c.column == indent && !c.rest.isEmpty) = true := by
    rw [hcolumn, beq_self_eq_true, h,
      List.isEmpty_eq_false_iff.mpr (List.append_ne_nil_of_left_ne_nil hne _)]
    rfl
  have hspan : c.span (fun ch => !isBreak ch) = (line, c.beyond line) := by
    have htake : c.rest.takeWhile (fun ch => !isBreak ch) = line := by
      rw [h, List.takeWhile_append_of_pos fun ch hch => by rw [hline ch hch]; rfl]
      rw [List.cons_append, List.takeWhile_cons_of_neg (by rw [hbreak]; decide),
        List.append_nil]
    rw [Cursor.span, htake, Cursor.beyond_eq_skip hline]
  refine ⟨c.rest.head?.any isGap, ?_⟩
  rw [blockLines, if_pos hgo, hspan]
  dsimp only
  rw [lineBreak?_of_break hnext hb]
  dsimp only
  rw [hreads, Cursor.beyond_append line]
  rfl

/-- Lines are read to the last break behind them, and the reader stops in front of what is
less far to the right. -/
lemma Lined.blockLines (h : Lined indent text body b bs)
    (hrest : c.rest = text ++ (blanks k ++ r)) (hcolumn : c.column = indent)
    (hk : k < indent) (hr : Solid r) {fuel : Nat} (hfuel : text.length < fuel)
    (acc : List Char) (blank : Bool) (first further : List Char) :
    blockLines true indent fuel acc blank first further c
      = some (body.reverse ++ ((first ++ further).reverse ++ acc), [b], bs,
        c.beyond (text ++ blanks k)) := by
  induction h generalizing c fuel acc blank first further with
  | @last line bs b hne hline hb hbs =>
    obtain ⟨fuel, rfl⟩ : ∃ f, fuel = f + 1 := ⟨fuel - 1, by omega⟩
    rw [List.append_assoc] at hrest
    obtain ⟨blank', hreads⟩ := blockLines_line hne hline hb hbs hrest hcolumn (by omega)
      (Or.inr ⟨hk, hr.head?_ne rfl⟩) (fun ch hch => (hr ch hch).2)
        (hr.head?_ne rfl) fuel acc blank first further
    -- What comes next is further left, so that the block ends.
    have hleft : ((c.beyond (line ++ (b :: bs ++ blanks k))).column == indent) = false := by
      rw [Cursor.beyond_append, column_beyond_breaks_blanks hb hbs, beq_eq_false_iff_ne]
      omega
    rw [hreads, List.append_assoc]
    cases fuel with
    | zero => rfl
    | succ fuel =>
      rw [Yaml.blockLines, hleft]
      rfl
  | @more line bs text body bs' b b' hne hline htab hb hbs hrest' ih =>
    obtain ⟨fuel, rfl⟩ : ∃ f, fuel = f + 1 := ⟨fuel - 1, by omega⟩
    have hrest₁ : c.rest = line ++
        (b :: bs ++ (blanks indent ++ (text ++ (blanks k ++ r)))) := by
      simp only [hrest, List.append_assoc]
    have hrest₂ : c.rest = (line ++ (b :: bs ++ blanks indent)) ++
        (text ++ (blanks k ++ r)) := by
      simp only [hrest, List.append_assoc]
    have hhead := hrest'.head?_append (blanks k ++ r)
    obtain ⟨blank', hreads⟩ := blockLines_line hne hline hb hbs hrest₁ hcolumn
      (by omega) (Or.inl rfl)
      (by rw [hhead]; exact hrest'.not_break)
        (by rw [hhead]; exact htab) fuel acc blank first further
    have hthere : (c.beyond (line ++ (b :: bs ++ blanks indent))).column = indent := by
      rw [Cursor.beyond_append, column_beyond_breaks_blanks hb hbs]
    simp only [List.length_append, List.length_cons] at hfuel
    rw [hreads, ih (Cursor.rest_beyond hrest₂) hthere (by omega)]
    simp only [List.append_assoc, Cursor.beyond_append, List.reverse_append,
      List.reverse_cons, List.reverse_nil, List.nil_append]

end

/-! ## Texts as lines -/

/-- A text with the indentation of a block. -/
def blockBody (indent : Nat) (broken : Bool) (cs : List Char) : List Char :=
  indented indent (fun ch => [ch]) broken cs

section
variable {indent : Nat} {ch : Char} {cs : List Char}

lemma blockBody_of_break (hch : isBreak ch = true) (broken : Bool) (cs : List Char) :
    blockBody indent broken (ch :: cs) = ch :: blockBody indent true cs := by
  rw [blockBody, indented, if_pos hch]
  rfl

lemma blockBody_of_not_break (hch : isBreak ch = false) (cs : List Char) :
    blockBody indent false (ch :: cs) = ch :: blockBody indent false cs := by
  rw [blockBody, indented, hch]
  rfl

lemma blockBody_true (hch : isBreak ch = false) (cs : List Char) :
    blockBody indent true (ch :: cs) = blanks indent ++ blockBody indent false
      (ch :: cs) := by
  rw [blockBody_of_not_break hch, blockBody, indented, hch, List.append_assoc]
  rfl

/-- A break at the end is printed as it is. -/
lemma blockBody_append_break {b : Char} (hb : isBreak b = true) (broken : Bool)
    (cs : List Char) :
    blockBody indent broken (cs ++ [b]) = blockBody indent broken cs ++ [b] := by
  induction cs generalizing broken with
  | nil => exact blockBody_of_break hb broken []
  | cons ch cs ih =>
    by_cases hch : isBreak ch = true
    · rw [List.cons_append, blockBody_of_break hch, blockBody_of_break hch,
        ih, List.cons_append]
    · rw [Bool.not_eq_true] at hch
      cases broken with
      | false =>
        rw [List.cons_append, blockBody_of_not_break hch, blockBody_of_not_break hch,
          ih, List.cons_append]
      | true =>
        rw [List.cons_append, blockBody_true hch, blockBody_true hch,
          blockBody_of_not_break hch, blockBody_of_not_break hch, ih, List.append_assoc,
          List.cons_append]

/-- One more character in front of the first line. -/
lemma Lined.cons {text body bs : List Char} {b : Char} (h : Lined indent text body b bs)
    (hch : isBreak ch = false) : Lined indent (ch :: text) (ch :: body) b bs := by
  cases h with
  | last hne hline hb hbs =>
    exact Lined.last (List.cons_ne_nil ch body)
      (List.forall_mem_cons.mpr ⟨hch, hline⟩) hb hbs
  | @more line bs text body bs' b b' hne hline htab hb hbs hrest =>
    exact Lined.more (List.cons_ne_nil ch line)
      (List.forall_mem_cons.mpr ⟨hch, hline⟩) htab hb hbs hrest

/-- A text that starts with a line, as lines with the indentation of a block. -/
def IsLines (indent : Nat) (cs : List Char) : Prop :=
  ∃ body b bs, Lined indent (blockBody indent false cs) body b bs ∧ cs = body ++ b :: bs

/-- A text behind a break: breaks only, or lines with breaks in front of them. -/
inductive BehindBreak (indent : Nat) (cs : List Char) : Prop
  | breaks (hall : ∀ b ∈ cs, isPrintedBreak b = true)
      (hbody : blockBody indent true cs = cs)
  | lines {breaks text body bs : List Char} {b : Char}
      (hall : ∀ b ∈ breaks, isPrintedBreak b = true)
      (htab : text.head? ≠ some '\t')
        (hbody : blockBody indent true cs = breaks ++ (blanks indent ++ text))
      (hlined : Lined indent text body b bs) (hcs : cs = breaks ++ (body ++ b :: bs))

/-- A line may begin with any character that is no break. -/
lemma IsLines.cons (h : IsLines indent cs) (hch : isBreak ch = false) :
    IsLines indent (ch :: cs) := by
  obtain ⟨body, b, bs, hlined, hcs⟩ := h
  refine ⟨ch :: body, b, bs, ?_, by rw [hcs]; rfl⟩
  rw [blockBody_of_not_break hch]
  exact hlined.cons hch

lemma BehindBreak.cons (h : BehindBreak indent cs) (hch : isPrintedBreak ch = true) :
    BehindBreak indent (ch :: cs) := by
  have hbody : blockBody indent true (ch :: cs) = ch :: blockBody indent true cs :=
    blockBody_of_break (isBreak_of_isPrintedBreak hch) true cs
  cases h with
  | breaks hall hsame =>
    exact .breaks (List.forall_mem_cons.mpr ⟨hch, hall⟩) (by rw [hbody, hsame])
  | lines hall htab hlines hlined hcs =>
    exact .lines (List.forall_mem_cons.mpr ⟨hch, hall⟩) htab
      (by rw [hbody, hlines]; rfl) hlined (by rw [hcs]; rfl)

/-- One character is a line in front of a text that starts with a break. -/
lemma BehindBreak.isLines {x : Char} (h : BehindBreak indent (x :: cs))
    (hx : isBreak x = true) (hch : isBreak ch = false) :
    IsLines indent (ch :: x :: cs) := by
  have hone : ∀ y ∈ [ch], isBreak y = false := by simpa using hch
  have hbody : blockBody indent false (ch :: x :: cs) = ch :: blockBody indent true
      (x :: cs) := by
    rw [blockBody_of_not_break hch, blockBody_of_break hx, blockBody_of_break hx]
  unfold IsLines
  rw [hbody]
  cases h with
  | breaks hall hsame =>
    rw [hsame]
    rw [List.forall_mem_cons] at hall
    exact ⟨[ch], x, cs, .last (List.cons_ne_nil ch []) hone hall.1 hall.2, rfl⟩
  | @lines breaks text body bs b hall htab hlines hlined hcs =>
    cases breaks with
    | nil =>
      -- The first character would be a blank or the start of a line.
      rw [blockBody_of_break hx] at hlines
      obtain ⟨y, more, rfl, hy⟩ := hlined.head
      cases indent with
      | zero =>
        rw [(List.cons.inj hlines).1, hy] at hx
        cases hx
      | succ n =>
        rw [(List.cons.inj hlines).1] at hx
        cases hx
    | cons y breaks =>
      rw [List.forall_mem_cons] at hall
      rw [hlines, hcs]
      exact ⟨ch :: (y :: breaks ++ body), b, bs,
        .more (List.cons_ne_nil ch []) hone htab hall.1 hall.2 hlined,
        by simp⟩

/-- Lines may stand behind a break, unless they begin with a tab. -/
lemma IsLines.behindBreak (h : IsLines indent (ch :: cs)) (hch : isBreak ch = false)
    (htab : ch ≠ '\t') :
    BehindBreak indent (ch :: cs) := by
  obtain ⟨body, b, bs, hlined, hcs⟩ := h
  have hnone : ∀ b ∈ ([] : List Char), isPrintedBreak b = true := fun b hb => by cases hb
  refine .lines hnone ?_ (blockBody_true hch cs) hlined hcs
  rw [blockBody_of_not_break hch]
  exact fun hhead => htab (Option.some.inj hhead)

/-- A text that ends with a break is breaks and, unless these are all of it, lines. -/
theorem lined_of_text (hprintable : ∀ ch ∈ cs, isPrintable ch = true)
    (hend : cs.getLast?.any isBreak = true) :
    ((∀ ch, cs.head? = some ch → isBreak ch = false) → IsLines indent cs) ∧
      BehindBreak indent cs := by
  -- Whether a character goes on with a line or starts one is told by the
  -- character behind it.
  induction cs with
  | nil => cases hend
  | cons a cs ih =>
    rw [List.forall_mem_cons] at hprintable
    cases cs with
    | nil =>
      have ha : isBreak a = true := hend
      have hprinted : isPrintedBreak a = true := by
        rw [isPrintedBreak, hprintable.1, ha]; rfl
      refine ⟨fun hhead => ?_,
        .breaks (by simpa using hprinted) (blockBody_of_break ha true [])⟩
      rw [hhead a rfl] at ha
      cases ha
    | cons x cs =>
      rw [List.getLast?_cons_cons] at hend
      obtain ⟨hword, hbehind⟩ := ih hprintable.2 hend
      cases ha : isBreak a with
      | true =>
        have hprinted : isPrintedBreak a = true := by
          rw [isPrintedBreak, hprintable.1, ha]; rfl
        refine ⟨fun hhead => ?_, hbehind.cons hprinted⟩
        rw [hhead a rfl] at ha
        cases ha
      | false =>
        have hlines : IsLines indent (a :: x :: cs) := by
          cases hx : isBreak x with
          | true => exact hbehind.isLines hx ha
          | false =>
            refine (hword fun ch hch => ?_).cons ha
            obtain rfl := Option.some.inj hch
            exact hx
        refine ⟨fun _ => hlines, hlines.behindBreak ha ?_⟩
        rintro rfl
        cases hprintable.1

end

/-! ## The signs of a block -/

/-- The sign of what becomes of the last breaks. -/
def Chomp.sign : Chomp → List Char
  | strip => ['-']
  | clip => []
  | keep => ['+']

/-- The breaks that are left of the last ones. -/
def Chomp.ending (chomp : Chomp) (first further : List Char) : List Char :=
  match chomp with
  | strip => []
  | clip => first
  | keep => first ++ further

/-- The header of a block is read as the hint and the sign that were printed. -/
lemma blockHeader_reads {c : Cursor} {r : List Char} {hint : List Char} {explicit : Nat}
    (chomp : Chomp) (hhint : (hint = [] ∧ explicit = 0) ∨ (hint = ['2'] ∧ explicit = 2))
    (h : c.rest = hint ++ chomp.sign ++ '\n' :: r) :
    blockHeader c = some (chomp, explicit, c.beyond (hint ++ chomp.sign)) := by
  have hone : ∀ ch ∈ hint ++ chomp.sign, isBreak ch = false := by
    refine eq_false_of_any ?_
    rcases hhint with ⟨rfl, -⟩ | ⟨rfl, -⟩ <;> cases chomp <;> decide
  rw [Cursor.beyond_eq_skip hone, blockHeader, h]
  rcases hhint with ⟨rfl, rfl⟩ | ⟨rfl, rfl⟩ <;> cases chomp <;> rfl

/-- How the last breaks of a text are told by the sign of its block. -/
lemma chompSign_of_lines {cs : List Char} {x : Char} {b : Char} {bs : List Char}
    (h : ∃ line, cs = line ++ x :: b :: bs) (hx : isBreak x = false) (hb : isBreak b = true)
    (hbs : ∀ b ∈ bs, isBreak b = true) :
    chompSign cs = Chomp.sign (if bs = [] then .clip else .keep) := by
  obtain ⟨line, rfl⟩ := h
  unfold chompSign
  -- The sign looks at the last three characters, the last first.
  cases hrev : bs.reverse with
  | nil =>
    rw [List.reverse_eq_nil_iff] at hrev
    rw [hrev]
    simp [hx, hb, Chomp.sign]
  | cons y more =>
    have hne : bs ≠ [] := fun hbs => by rw [hbs] at hrev; cases hrev
    have hmem : ∀ z ∈ y :: more, isBreak z = true := fun z hz =>
      hbs z (by rw [← List.mem_reverse, hrev]; exact hz)
    have hy := hmem y List.mem_cons_self
    rw [if_neg hne]
    cases more with
    | nil => simp [hrev, hy, hb, Chomp.sign]
    | cons z more => simp [hrev, hy, hmem z (by simp), Chomp.sign]

/-- A text of nothing but breaks keeps them all. -/
lemma chompSign_of_breaks {cs : List Char} (hne : cs ≠ [])
    (h : ∀ b ∈ cs, isBreak b = true) :
    chompSign cs = Chomp.keep.sign := by
  unfold chompSign
  have hmem : ∀ b ∈ cs.reverse, isBreak b = true := fun b hb => h b (List.mem_reverse.mp hb)
  split
  · next hrev => exact absurd (List.reverse_eq_nil_iff.mp hrev) hne
  · next a hrev => rw [if_pos (hmem a (by rw [hrev]; simp))]; rfl
  · next a b more hrev =>
    rw [hmem a (by rw [hrev]; simp), hmem b (by rw [hrev]; simp)]
    rfl

/-- A text that does not end with a break gets none. -/
lemma chompSign_of_open {cs : List Char} (h : cs.getLast?.any isBreak = false) :
    chompSign cs = Chomp.strip.sign := by
  rw [← List.head?_reverse] at h
  unfold chompSign
  split
  · rfl
  · next hrev =>
    rw [hrev] at h
    rw [show isBreak _ = false from h]
    rfl
  · next hrev =>
    rw [hrev] at h
    rw [show isBreak _ = false from h]
    rfl

/-! ## The reader -/

/-- The last character in front of the last breaks. -/
lemma Lined.body_eq {indent : Nat} {text body bs : List Char} {b : Char}
    (h : Lined indent text body b bs) :
    isPrintedBreak b = true ∧ (∀ b ∈ bs, isPrintedBreak b = true) ∧
      ∃ line x, body = line ++ [x] ∧ isBreak x = false := by
  induction h with
  | @last line bs b hne hline hb hbs =>
    refine ⟨hb, hbs, line.dropLast, line.getLast hne,
      (List.dropLast_concat_getLast hne).symm, ?_⟩
    exact hline _ (List.getLast_mem hne)
  | @more line bs text body bs' b b' hne hline htab hb hbs hrest ih =>
    obtain ⟨hb', hbs', front, x, rfl, hx⟩ := ih
    exact ⟨hb', hbs', line ++ (b :: bs ++ front), x, by simp only [List.append_assoc], hx⟩

/-- What the reader of blocks takes up: breaks only, or lines and the breaks behind the
last of them. -/
inductive TakenUp : List Char → List Char → List Char → List Char → Prop
  | breaks {cs : List Char} (h : ∀ b ∈ cs, isBreak b = true) : TakenUp cs [] [] cs
  | lines {line further : List Char} {x b : Char} (hx : isBreak x = false)
      (hb : isBreak b = true) (hfurther : ∀ b ∈ further, isBreak b = true) :
      TakenUp (line ++ x :: b :: further) (line ++ [x]).reverse [b] further

section
variable {indent k given least : Nat} {c : Cursor} {cs r : List Char}

/-- The indentation of a block is known from its sign or from its first line. -/
lemma blockIndent_reads {text : List Char} (h : c.rest = blanks indent ++ text)
    (htext : Solid text) (hcolumn : c.column = 0) (hleast : least ≤ indent)
    (hindent : 0 < indent) (fuel : Nat) :
    ∃ deepest, blockBreaks 0 (fuel + 1) [] 0 c =
      some ([], deepest, c.beyond (blanks indent)) ∧
      max 1 (max deepest least) = indent := by
  have hspaces : (c.rest.takeWhile (· == ' ')).length = indent := by
    rw [h, length_takeWhile_blanks, takeWhile_blank_eq_nil (htext.head?_ne rfl)]
    rfl
  have hskip : c.skip indent = c.beyond (blanks indent) := by
    rw [Cursor.beyond_eq_skip isBreak_of_mem_blanks, length_blanks]
  have hnext := Cursor.rest_beyond h
  have hsolid : Solid (c.beyond (blanks indent)).rest := by rw [hnext]; exact htext
  have hthere : (c.beyond (blanks indent)).column = indent := by
    rw [Cursor.column_beyond_of_one_line isBreak_of_mem_blanks, length_blanks,
      hcolumn, Nat.zero_add]
  refine ⟨max 0 (c.beyond (blanks indent)).column, ?_, by omega⟩
  rw [blockBreaks, if_pos rfl, hspaces, hskip, if_neg fun hboth =>
    hsolid.head?_ne rfl hboth.2, hsolid.lineBreak?]

/-- The column behind the breaks at the start of a line and the blanks behind them. -/
lemma column_beyond_lead {breaks : List Char} (hall : ∀ b ∈ breaks, isPrintedBreak b = true)
    (hcolumn : c.column = 0) (k : Nat) : (c.beyond (breaks ++ blanks k)).column = k := by
  cases breaks with
  | nil =>
    show (c.beyond (blanks k)).column = k
    rw [Cursor.column_beyond_of_one_line isBreak_of_mem_blanks, length_blanks,
      hcolumn, Nat.zero_add]
  | cons a breaks =>
    rw [List.forall_mem_cons] at hall
    exact column_beyond_breaks_blanks hall.1 hall.2 k c

/-- There are no breaks in front of what is solid. -/
lemma Solid.no_breaks {breaks more : List Char} (h : Solid cs) (hcs : cs = breaks ++ more)
    (hall : ∀ b ∈ breaks, isPrintedBreak b = true) : breaks = [] := by
  cases breaks with
  | nil => rfl
  | cons a breaks =>
    have hnot := (h a (by rw [hcs]; rfl)).2
    rw [isBreak_of_isPrintedBreak (hall a List.mem_cons_self)] at hnot
    cases hnot

/-- The lines behind the line of a sign are read as a text, and the reader stops at a
place behind them.  The indentation is given, or it is that of the first line, which is at
least as deep as the sign allows. -/
def TakesUp (given least : Nat) (c : Cursor) (cs : List Char) (stop : Cursor) : Prop :=
  ∃ breaks deepest next, blockBreaks given (c.rest.length + 1) [] 0 c =
    some (breaks, deepest, next) ∧
    ∃ acc first further,
      blockLines true (if given = 0 then max 1 (max deepest least) else given)
        (next.rest.length + 1) [] false []
          breaks next
        = some (acc, first, further, stop) ∧
      TakenUp cs acc first further

/-- Breaks only, under a given indentation. -/
lemma takesUp_breaks (hall : ∀ b ∈ cs, isPrintedBreak b = true)
    (hrest : c.rest = cs ++ (blanks k ++ r)) (hcolumn : c.column = 0) (hk : k < indent)
    (hr : Solid r) :
    TakesUp indent least c cs (c.beyond (cs ++ blanks k)) := by
  have hless : cs.length < c.rest.length + 1 := by
    rw [hrest, List.length_append]
    omega
  obtain ⟨deepest, hreads⟩ :=
    blockBreaks_reads hrest hall hcolumn (by omega) (Or.inr ⟨hk, hr.head?_ne rfl⟩)
    (fun ch hch => (hr ch hch).2) (hr.head?_ne rfl) hless [] 0
  have hleft : ((c.beyond (cs ++ blanks k)).column == indent) = false := by
    rw [column_beyond_lead hall hcolumn, beq_eq_false_iff_ne]
    omega
  refine ⟨_, _, _, hreads, [], [], cs, ?_, .breaks fun b hb =>
    isBreak_of_isPrintedBreak (hall b hb)⟩
  rw [if_neg (by omega), blockLines, hleft]
  rfl

lemma Lined.takenUp {text body bs breaks : List Char} {b : Char}
    (h : Lined indent text body b bs) :
    TakenUp (breaks ++ (body ++ b :: bs)) (body.reverse ++ (([] ++ breaks).reverse ++ []))
      [b] bs := by
  obtain ⟨hb, hbs, line, x, rfl, hx⟩ := h.body_eq
  have htext : breaks ++ (line ++ [x] ++ b :: bs) = (breaks ++ line) ++ x :: b :: bs := by
    simp only [List.append_assoc, List.cons_append, List.nil_append]
  have hacc : (line ++ [x]).reverse ++ (([] ++ breaks).reverse ++ []) =
      ((breaks ++ line) ++ [x]).reverse := by
    simp only [List.reverse_append, List.append_nil, List.nil_append, List.append_assoc]
  rw [htext, hacc]
  exact .lines hx (isBreak_of_isPrintedBreak hb) fun b hb =>
    isBreak_of_isPrintedBreak (hbs b hb)

/-- Lines with breaks in front of them, once it is known how the breaks are read. -/
lemma Lined.takesUp {text body bs breaks : List Char} {b : Char} {deepest : Nat}
    (h : Lined indent text body b bs)
    (hrest : c.rest = (breaks ++ blanks indent) ++ (text ++ (blanks k ++ r)))
    (hall : ∀ b ∈ breaks, isPrintedBreak b = true) (hcolumn : c.column = 0)
    (hk : k < indent) (hr : Solid r)
    (hreads : blockBreaks given (c.rest.length + 1) [] 0 c = some (breaks, deepest,
      c.beyond (breaks ++ blanks indent)))
    (hindent : (if given = 0 then max 1 (max deepest least) else given) = indent) :
    TakesUp given least c (breaks ++ (body ++ b :: bs))
      (c.beyond (breaks ++ (blanks indent ++ (text ++ blanks k)))) := by
  have hnext := Cursor.rest_beyond hrest
  have hlong : text.length < (c.beyond (breaks ++ blanks indent)).rest.length + 1 := by
    rw [hnext, List.length_append]
    omega
  refine ⟨_, _, _, hreads, _, _, _, ?_, h.takenUp⟩
  rw [hindent, ← List.append_assoc breaks, Cursor.beyond_append (breaks ++ blanks indent)]
  exact h.blockLines hnext (column_beyond_lead hall hcolumn indent) hk hr hlong
    [] false [] breaks

/-- The lines of a text, behind the line of its sign. -/
theorem takesUp_text (hprintable : ∀ ch ∈ cs, isPrintable ch = true)
    (hend : cs.getLast?.any isBreak = true)
    (hgiven : given = indent ∨ (given = 0 ∧ least ≤ indent ∧ Solid cs))
    (hrest : c.rest = blockBody indent true cs ++ (blanks k ++ r))
    (hcolumn : c.column = 0) (hk : k < indent) (hr : Solid r) :
    TakesUp given least c cs (c.beyond (blockBody indent true cs ++ blanks k)) := by
  have hindent : 0 < indent := by omega
  cases (lined_of_text hprintable hend).2 with
  | breaks hall hbody =>
    rw [hbody] at hrest ⊢
    -- Where no hint is given the text begins with something solid, and does not
    -- consist of breaks.
    rcases hgiven with rfl | ⟨-, -, hsolid⟩
    · exact takesUp_breaks hall hrest hcolumn hk hr
    · rw [hsolid.no_breaks (List.append_nil cs).symm hall] at hend
      cases hend
  | @lines breaks text body bs b hall htab hbody hlined hcs =>
    have hrest₁ : c.rest = breaks ++ (blanks indent ++ (text ++ (blanks k ++ r))) := by
      rw [hrest, hbody, List.append_assoc, List.append_assoc]
    have hrest₂ : c.rest = (breaks ++ blanks indent) ++ (text ++ (blanks k ++ r)) := by
      rw [hrest₁, List.append_assoc]
    have hhead := hlined.head?_append (blanks k ++ r)
    rw [hbody, List.append_assoc breaks, List.append_assoc (blanks indent)]
    rcases hgiven with rfl | ⟨rfl, hleast, hsolid⟩
    · have hless : breaks.length < c.rest.length + 1 := by
        rw [hrest₁, List.length_append]
        omega
      obtain ⟨deepest, hreads⟩ := blockBreaks_reads hrest₁ hall hcolumn hindent (Or.inl rfl)
        (by rw [hhead]; exact hlined.not_break) (by rw [hhead]; exact htab) hless [] 0
      rw [hcs]
      exact hlined.takesUp hrest₂ hall hcolumn hk hr hreads (if_neg (by omega))
    -- Without a hint the first line shows the indentation, and no break comes before it.
    · obtain rfl := hsolid.no_breaks hcs hall
      have htext : Solid (text ++ (blanks k ++ r)) := by
        intro ch hch
        rw [hhead, ← hlined.head_eq] at hch
        refine hsolid ch ?_
        obtain ⟨-, -, line, x, rfl, -⟩ := hlined.body_eq
        rw [hcs, List.nil_append, List.head?_append, hch]
        rfl
      obtain ⟨deepest, hreads, hknown⟩ :=
        blockIndent_reads hrest₁ htext hcolumn hleast hindent c.rest.length
      rw [hcs]
      exact hlined.takesUp hrest₂ hall hcolumn hk hr hreads (by rw [if_pos rfl, hknown])

/-! ## Blocks -/

/-- A text with a break behind its last line. -/
def closed (cs : List Char) : List Char :=
  cs ++ if cs.getLast?.any isBreak then [] else ['\n']

lemma closed_ends (cs : List Char) : (closed cs).getLast?.any isBreak = true := by
  unfold closed
  split
  · next hlast => rw [List.append_nil, hlast]
  · rw [List.getLast?_concat]
    rfl

lemma isPrintable_of_mem_closed (h : ∀ ch ∈ cs, isPrintable ch = true) :
    ∀ ch ∈ closed cs, isPrintable ch = true := by
  intro ch hch
  rcases List.mem_append.mp hch with hch | hch
  · exact h ch hch
  · split at hch
    · cases hch
    · rw [List.mem_singleton.mp hch]
      rfl

/-- The lines of a block are those of the closed text. -/
lemma blockOfLines_eq (indent : Nat) (cs : List Char) :
    blockOfLines indent cs
      = '|' :: (blockHint cs ++ chompSign cs ++ '\n' :: blockBody indent true
        (closed cs)) := by
  have hbody : indented indent (fun ch => [ch]) true cs ++
      (if cs.getLast?.any isBreak then [] else ['\n'])
      = blockBody indent true (closed cs) := by
    unfold closed
    split
    · rw [List.append_nil, List.append_nil]
      rfl
    · exact (blockBody_append_break (by decide) true cs).symm
  unfold blockOfLines
  dsimp only
  rw [hbody]

/-- The indentation is given where the first line would hide it. -/
lemma blockHint_cases (hcs : cs ≠ []) (hprintable : ∀ ch ∈ cs, isPrintable ch = true) :
    blockHint cs = ['2'] ∨ (blockHint cs = [] ∧ Solid (closed cs)) := by
  by_cases hhint : cs.head?.any (fun ch => isSpace ch || isBreak ch) = true
  · exact Or.inl (if_pos hhint)
  · refine Or.inr ⟨if_neg hhint, fun ch hch => ?_⟩
    have hhead : (closed cs).head? = cs.head? := by
      cases cs with
      | nil => exact absurd rfl hcs
      | cons a cs => rfl
    rw [hhead] at hch
    rw [Bool.not_eq_true, hch, Option.any_some, Bool.or_eq_false_iff] at hhint
    exact ⟨isGap_of_isPrintable (hprintable ch (List.mem_of_mem_head? hch)) hhint.1,
      hhint.2⟩

/-- What is left of the lines of a text that ends with a break. -/
lemma ending_of_ended {acc first further : List Char} (hne : cs ≠ [])
    (h : TakenUp cs acc first further) :
    ∃ chomp, chompSign cs = Chomp.sign chomp ∧
      acc.reverse ++ chomp.ending first further = cs := by
  cases h with
  | breaks hall => exact ⟨.keep, chompSign_of_breaks hne hall, rfl⟩
  | @lines line further x b hx hb hfurther =>
    refine ⟨_, chompSign_of_lines ⟨line, rfl⟩ hx hb hfurther, ?_⟩
    by_cases hnone : further = []
    · rw [if_pos hnone, hnone]
      simp [Chomp.ending]
    · rw [if_neg hnone]
      simp [Chomp.ending]

/-- What is left of the lines of a text that does not end with a break: the break that
closes it is the only one behind its last line. -/
lemma ending_of_open {acc first further : List Char} (hne : cs ≠ [])
    (hopen : cs.getLast?.any isBreak = false)
    (h : TakenUp (cs ++ ['\n']) acc first further) : acc.reverse = cs := by
  have hlast : ∀ line y, cs = line ++ [y] → isBreak y = false := by
    rintro line y rfl
    rwa [List.getLast?_concat, Option.any_some] at hopen
  generalize htext : cs ++ ['\n'] = text at h
  cases h with
  | breaks hall =>
    have hfront : cs = cs.dropLast ++ [cs.getLast hne] :=
      (List.dropLast_concat_getLast hne).symm
    have hbreak := hall (cs.getLast hne) (by rw [← htext]; simp)
    rw [hlast _ _ hfront] at hbreak
    cases hbreak
  | @lines line further x b hx hb hfurther =>
    rcases List.eq_nil_or_concat further with rfl | ⟨more, z, rfl⟩
    · have hsplit : cs ++ ['\n'] = (line ++ [x]) ++ [b] := by
        rw [htext, List.append_assoc]; rfl
      rw [List.reverse_reverse, (List.append_inj' hsplit rfl).1]
    · -- The text itself would end with a break.
      have hsplit : cs ++ ['\n'] = (line ++ x :: b :: more) ++ [z] := by
        rw [htext, List.concat_eq_append, List.append_assoc]
        rfl
      have hline := (List.append_inj' hsplit rfl).1
      rcases List.eq_nil_or_concat more with rfl | ⟨more, z', rfl⟩
      · have hnot := hlast (line ++ [x]) b (by rw [hline, List.append_assoc]; rfl)
        rw [hb] at hnot
        cases hnot
      · have hnot := hlast (line ++ x :: b :: more) z' (by
          rw [hline, List.concat_eq_append, List.append_assoc]
          rfl)
        have hbreak := hfurther z' (by simp)
        rw [hnot] at hbreak
        cases hbreak

/-- What is left of the lines by the sign of the block is the text. -/
theorem ending_of_takenUp {acc first further : List Char} (hne : cs ≠ [])
    (h : TakenUp (closed cs) acc first further) :
    ∃ chomp, chompSign cs = Chomp.sign chomp ∧
      acc.reverse ++ chomp.ending first further = cs := by
  unfold closed at h
  cases hlast : cs.getLast?.any isBreak with
  | true =>
    rw [if_pos hlast, List.append_nil] at h
    exact ending_of_ended hne h
  | false =>
    rw [if_neg (Bool.eq_false_iff.mp hlast)] at h
    refine ⟨.strip, chompSign_of_open hlast, ?_⟩
    rw [ending_of_open hne hlast h]
    exact List.append_nil cs

/-- A block ends behind a break. -/
theorem blockOfLines_ends (indent : Nat) (cs : List Char) :
    ∃ front b, blockOfLines indent cs = front ++ [b] ∧ isBreak b = true := by
  obtain ⟨b, hb, hbreak⟩ := (Option.any_eq_true _ _).mp (closed_ends cs)
  obtain ⟨front, hfront⟩ := List.getLast?_eq_some_iff.mp hb
  refine ⟨'|' :: (blockHint cs ++ chompSign cs ++ '\n' :: blockBody indent true front), b,
    ?_, hbreak⟩
  rw [blockOfLines_eq, hfront, blockBody_append_break hbreak]
  simp only [List.append_assoc, List.cons_append]

/-- A block is read as what its sign leaves of the lines behind it. -/
lemma readBlock_of_takesUp {parent explicit : Nat} {hint sign : List Char} {stop : Cursor}
    (hhint : (hint = [] ∧ explicit = 0) ∨ (hint = ['2'] ∧ explicit = 2))
    (h : c.rest = '|' :: (hint ++ sign ++ '\n' :: r))
    (hlines : TakesUp (if explicit = 0 then 0 else parent + explicit) (parent + 1)
      (c.beyond ('|' :: (hint ++ sign ++ ['\n']))) cs stop) :
    ∃ acc first further, TakenUp cs acc first further ∧ ∀ chomp : Chomp, sign = chomp.sign →
      readBlock true (some parent) c =
        some (String.ofList (acc.reverse ++ chomp.ending first further), stop) := by
  obtain ⟨breaks, deepest, next, hbreaks, acc, first, further, hread, htaken⟩ := hlines
  refine ⟨acc, first, further, htaken, ?_⟩
  rintro chomp rfl
  have hopen : c.skip 1 = c.beyond ['|'] :=
    (Cursor.beyond_eq_skip (t := ['|']) (eq_false_of_any rfl) c).symm
  have hnext₁ : (c.beyond ['|']).rest = hint ++ chomp.sign ++ '\n' :: r :=
    Cursor.rest_beyond h
  have hnext₂ := Cursor.rest_beyond hnext₁
  have hheader := blockHeader_reads chomp hhint hnext₁
  rw [Cursor.beyond_cons, Cursor.beyond_append (hint ++ chomp.sign)] at hbreaks
  generalize (c.beyond ['|']).beyond (hint ++ chomp.sign) = signed at *
  -- Nothing stands behind the signs but the break.
  have hskip : signed.skipWhile isGap = signed := by
    rw [Cursor.skipWhile, Cursor.span, hnext₂]
    rfl
  have hbreak : signed.skipBreak = signed.beyond ['\n'] := by
    rw [Cursor.skipBreak, lineBreak?_of_break hnext₂ (by decide)]
  have hcomment : (signed.rest.head? == some '#') = false := by
    rw [hnext₂]
    rfl
  have hatBreak : atBreakOrEnd signed.rest = true := by
    rw [hnext₂]
    rfl
  rw [readBlock, hopen, hheader]
  dsimp only [Option.bind_eq_bind, Option.bind_some]
  simp only [hskip, hcomment, hatBreak, hbreak, Bool.false_eq_true, if_false,
    Bool.not_true, Option.getD_some, Option.elim_some, hbreaks, hread, Option.bind_some]
  rfl

/-- A text as a block of lines reads back. -/
theorem readBlock_blockOfLines {parent : Nat}
    (h : c.rest = blockOfLines (parent + 2) cs ++ (blanks k ++ r))
    (hcs : allowsBlock cs = true) (hfeed : '\n' ∈ cs) (hk : k < parent + 2)
    (hr : Solid r) :
    readBlock true (some parent) c
      = some (String.ofList cs, c.beyond (blockOfLines (parent + 2) cs ++ blanks k)) := by
  unfold allowsBlock at hcs
  simp only [Bool.and_eq_true, Bool.not_eq_true', List.all_eq_true] at hcs
  have hne : cs ≠ [] := List.ne_nil_of_mem hfeed
  -- A hint is given where the first line would hide the indentation; elsewhere the first
  -- line shows it.
  obtain ⟨explicit, hhint, hgiven⟩ : ∃ explicit,
      ((blockHint cs = [] ∧ explicit = 0) ∨ (blockHint cs = ['2'] ∧ explicit = 2)) ∧
        ((if explicit = 0 then 0 else parent + explicit) = parent + 2 ∨
          ((if explicit = 0 then 0 else parent + explicit) = 0 ∧ parent + 1 ≤ parent + 2 ∧
            Solid (closed cs))) := by
    rcases blockHint_cases hne hcs.1.1 with hhint | ⟨hnone, hsolid⟩
    · exact ⟨2, Or.inr ⟨hhint, rfl⟩, Or.inl rfl⟩
    · exact ⟨0, Or.inl ⟨hnone, rfl⟩, Or.inr ⟨rfl, by omega, hsolid⟩⟩
  rw [blockOfLines_eq] at h ⊢
  have hrest : c.rest = '|' :: (blockHint cs ++ chompSign cs
      ++ '\n' :: (blockBody (parent + 2) true (closed cs) ++ (blanks k ++ r))) := by
    simp only [h, List.append_assoc, List.cons_append]
  have hfirst : c.rest = '|' :: (blockHint cs ++ chompSign cs ++ ['\n'])
      ++ (blockBody (parent + 2) true (closed cs) ++ (blanks k ++ r)) := by
    simp only [h, List.append_assoc, List.cons_append, List.nil_append]
  have hcolumn : (c.beyond ('|' :: (blockHint cs ++ chompSign cs ++ ['\n']))).column =
      0 := by
    rw [Cursor.beyond_cons, Cursor.beyond_append]
    exact Cursor.column_beyond_break (by decide) _
  have hlines := takesUp_text (isPrintable_of_mem_closed hcs.1.1) (closed_ends cs) hgiven
    (Cursor.rest_beyond hfirst) hcolumn hk hr
  obtain ⟨acc, first, further, htaken, hread⟩ := readBlock_of_takesUp hhint hrest hlines
  obtain ⟨chomp, hsign, htext⟩ := ending_of_takenUp hne htaken
  rw [hread chomp hsign, htext, ← Cursor.beyond_append]
  simp only [List.append_assoc, List.cons_append, List.nil_append]

end

end Workplan.Yaml
