import Mathlib.Tactic.Lemma
import Workplan.Proofs.Yaml.Block
import Workplan.Proofs.Yaml.Forms
import Workplan.Proofs.Yaml.Turns

/-!
# Scalars in turns

A printed scalar is one token.  Behind a value the scanner lands on the next line,
whichever way the reader of the scalar stopped (`Ready.text`, `Ready.atom`,
`Ready.brackets`); a short name and the colon behind it are two turns, of which the second
makes a key of the first (`Ready.shortKey`).
-/

namespace Workplan.Yaml.Pass

/-! ## Scalars -/

/-- The candidate that a token at the place of a pass is for a key. -/
def candidateHere (p : Pass) : KeyCandidate where
  required := !p.inFlow && p.indents.head? == some p.cursor.column
  position := p.count
  index := p.cursor.index
  line := p.cursor.line
  column := p.cursor.column

section
variable {p : Pass} {text rest cs : List Char} {col i k : Nat} {cols : List Nat}
  {ts : List Token} {allowed : Bool}

/-- Reads a plain scalar as a token. -/
def plainToken (indent : Nat) (c : Cursor) : Option (Token × Bool × Cursor) :=
  (readPlain false indent c).map fun (s, broken, next) => (.scalar s .plain, broken, next)

/-- Reads a scalar in quotes as a token. -/
def quotedToken (single : Bool) (c : Cursor) : Option (Token × Bool × Cursor) :=
  (readQuoted single c).map fun (s, next) => (.scalar s .quoted, false, next)

/-- A token that may start a key. -/
lemma Ready.keyToken {token : Token} {after : Bool} {next : Cursor}
    {read : Cursor → Option (Token × Bool × Cursor)} (h : Ready p text col cols ts allowed)
    (hread : read p.cursor = some (token, after, next)) :
    ∃ q, keyToken read p = some q ∧ q.cursor = next ∧ q.indents = cols ∧
      q.tokens = token :: ts ∧
      q.count = (token :: ts).length ∧ q.outerKeys = [] ∧ q.keyAllowed = after ∧
      q.keyCandidate = if allowed then some (candidateHere p) else p.keyCandidate := by
  have htokens : token :: p.tokens = token :: ts := by rw [h.tokens]
  have hcount : p.count + 1 = (token :: ts).length := by rw [List.length_cons, h.count]
  unfold Pass.keyToken saveKey
  rw [h.allowed]
  cases allowed with
  | false =>
    simp only [Bool.false_eq_true, if_false, Option.bind_eq_bind, Option.bind_some, hread]
    exact ⟨_, rfl, rfl, h.indents, htokens, hcount, h.outer, rfl, rfl⟩
  | true =>
    simp only [if_true, h.dropKey, Option.bind_eq_bind, Option.bind_some, hread]
    exact ⟨_, rfl, rfl, h.indents, htokens, hcount, h.outer, rfl, rfl⟩

/-- Behind the column of its collection, a token need not be a key. -/
lemma Ready.candidate_inside (h : Ready p text col (i :: cols) ts allowed) (hi : i < col)
    {key : KeyCandidate}
    (hkey : (if allowed then some (candidateHere p) else p.keyCandidate) = some key) :
    key.required = false ∧ key.line ≤ p.cursor.line := by
  cases allowed with
  | false =>
    obtain ⟨hrequired, hline⟩ := h.candidate key hkey
    exact ⟨hrequired, Nat.le_of_lt hline⟩
  | true =>
    obtain rfl := Option.some.inj hkey
    refine ⟨?_, Nat.le_refl _⟩
    have hne : (some i == some col) = false := by
      rw [beq_eq_false_iff_ne]
      intro heq
      have := Option.some.inj heq
      omega
    show (!p.inFlow && p.indents.head? == some p.cursor.column) = false
    rw [h.indents, h.column, List.head?_cons, hne, Bool.and_false]

lemma startsPlain_of_plainHead {ch : Char} {rest : List Char} (h : PlainHead ch rest) :
    startsPlain false (ch :: rest) = true := by
  rw [startsPlain]
  by_cases hdash : (ch == '-') = true
  · have hrest := h.spaced_eq '-' (by decide)
    rw [hdash, Bool.true_and] at hrest
    rw [if_pos hdash]
    cases rest with
    | nil => rfl
    | cons x rest =>
      have hx : (isGap x || isBreak x) = false := hrest
      rw [Bool.or_eq_false_iff] at hx
      rw [List.head?_cons, Option.any_some, hx.1]
      rfl
  · rw [if_neg hdash]
    by_cases hsign : (ch == '?' || ch == ':') = true
    · have hrest : atGapOrEnd rest = false := by
        refine h.spaced ?_
        rcases Bool.or_eq_true_iff.mp hsign with heq | heq <;> rw [eq_of_beq heq] <;> decide
      rw [if_pos hsign, hrest]
      rfl
    -- What may not begin a plain scalar is among what a plain head is not.
    · have hsame : (",[]\x7b\x7d#&*!|>'\"%@\x60".toList.all fun x =>
          "#,[]\x7b\x7d&*!|>'\"%@\x60".toList.contains x) = true := by decide
      have hnone : ",[]\x7b\x7d#&*!|>'\"%@\x60".toList.contains ch = false := by
        refine Bool.eq_false_iff.mpr fun hmem => ?_
        have hcontains := List.all_eq_true.mp hsame ch (List.contains_iff_mem.mp hmem)
        rw [h.sign] at hcontains
        cases hcontains
      rw [if_neg hsign, h.solid.1, h.solid.2, hnone]
      rfl

/-- A plain text is read as a plain scalar. -/
lemma readToken_plain {r t : List Char} {broken : Bool}
    (h : Ready p (cs ++ r) col cols ts allowed) (hcs : PlainText cs)
    (hend : PlainEnd (cols.head?.elim 0 (· + 1)) r broken t) :
    readToken p = Pass.keyToken (plainToken (cols.head?.elim 0 (· + 1))) p := by
  have hboundary := hcs.not_atBoundary h.rest hend
  rw [Cursor.atBoundary, Bool.or_eq_false_iff] at hboundary
  obtain ⟨ch, more, rfl, hfirst⟩ := hcs.head
  have hhead := hfirst.append r
  have hne : ∀ sign, "#,[]\x7b\x7d&*!|>'\"%@\x60".toList.contains sign = true →
      (ch == sign) = false :=
    fun sign hsign => beq_eq_false_iff_ne.mpr (hhead.ne hsign)
  rw [readToken, h.rest, hboundary.1, hboundary.2, h.inFlow, List.cons_append,
    startsPlain_of_plainHead hhead, h.indents]
  simp only [hne '%' (by decide), hne '[' (by decide), hne ']' (by decide),
    hne '\x7b' (by decide), hne '\x7d' (by decide), hne ',' (by decide),
    hne '*' (by decide), hne '&' (by decide), hne '!' (by decide), hne '|' (by decide),
    hne '>' (by decide), hne '\'' (by decide), hne '"' (by decide),
    hhead.spaced_eq '-' (by decide), hhead.spaced_eq '?' (by decide),
    hhead.spaced_eq ':' (by decide), Bool.and_false, Bool.false_and, Bool.or_false,
    Bool.false_or, Bool.false_eq_true, if_false, if_true]
  rfl

/-- Quotes start a quoted scalar. -/
lemma readToken_quote {single : Bool}
    (h : Ready p (quoteOf single :: text) col cols ts allowed) :
    readToken p = Pass.keyToken (quotedToken single) p := by
  have hdash : p.cursor.atMarker '-' = false :=
    atMarker_of_head h.rest (by cases single <;> decide)
  have hdot : p.cursor.atMarker '.' = false :=
    atMarker_of_head h.rest (by cases single <;> decide)
  rw [readToken, h.rest]
  cases single with
  | false =>
    simp [quoteOf, hdash, hdot]
    rfl
  | true =>
    simp [quoteOf, hdash, hdot]
    rfl

/-- A bar starts a block of lines. -/
lemma readToken_bar (h : Ready p ('|' :: text) col cols ts allowed) :
    readToken p = p.blockScalar true := by
  have hdash : p.cursor.atMarker '-' = false := atMarker_of_head h.rest (by decide)
  have hdot : p.cursor.atMarker '.' = false := atMarker_of_head h.rest (by decide)
  rw [readToken, h.rest]
  simp [hdash, hdot, h.inFlow]

/-! ## Scalars to the end of their line -/

/-- The column behind a scalar whose last line is not its first. -/
lemma line_lt_beyond {c : Cursor} (t : List Char) {b : Char} (hb : isBreak b = true)
    (u : List Char) :
    c.line < (c.beyond (t ++ b :: u)).line := by
  rw [Cursor.beyond_append, Cursor.beyond_cons]
  have hline := Cursor.line_le_beyond t c
  have hbreak := Cursor.line_beyond_break hb (c.beyond t)
  have hrest := Cursor.line_le_beyond u ((c.beyond t).beyond [b])
  omega

/-- A plain text up to the end of its line. -/
lemma Ready.plain
    (h : Ready p (cs ++ '\n' :: (blanks k ++ rest)) col (i :: cols) ts allowed)
    (hcs : PlainText cs) (hcol : i < col) (hk : k ≤ i) (hrest : Starts rest) :
    ∃ q, readToken p = some q ∧
      Lands q rest k (i :: cols) (.scalar (String.ofList cs) .plain :: ts) ∧
      q.cursor.rest.length < p.cursor.rest.length := by
  have hend : PlainEnd (i + 1) ('\n' :: (blanks k ++ rest)) true ('\n' :: blanks k) :=
    .line (by omega) hrest.solid
  have hread := hcs.readPlain h.rest hend (by rw [h.column]; omega)
  have hthere : p.cursor.rest = (cs ++ '\n' :: blanks k) ++ rest := by
    rw [h.rest, List.append_assoc]
    rfl
  have hnext := Cursor.rest_beyond hthere
  have htoken : plainToken (i + 1) p.cursor
      = some (.scalar (String.ofList cs) .plain, true,
        p.cursor.beyond (cs ++ '\n' :: blanks k)) := by
    rw [plainToken, hread]
    rfl
  obtain ⟨q, hq, hcursor, hcols, hts, hcount, houter, hallowed, hcandidate⟩ :=
    h.keyToken htoken
  refine ⟨q, by rw [readToken_plain h hcs hend]; exact hq, ?_, ?_⟩
  -- A plain scalar is over only behind the break and the indentation of the next line.
  · refine Ready.lands ⟨by rw [hcursor, hnext], ?_, hcols, hts, hcount, houter,
      hallowed, ?_⟩ hrest
    · rw [hcursor, Cursor.beyond_append, column_beyond_break_blanks (by decide)]
    · intro key hkey
      rw [hcandidate] at hkey
      obtain ⟨hrequired, hline⟩ := h.candidate_inside hcol hkey
      rw [hcursor]
      exact ⟨hrequired, Nat.lt_of_le_of_lt hline (line_lt_beyond cs (by decide) (blanks k))⟩
  · rw [hcursor, hnext, hthere, List.length_append, List.length_append, List.length_cons]
    omega

/-- A text in quotes up to the end of its line. -/
lemma Ready.quoted (single : Bool) {written : List Char} {s : String}
    (h : Ready p (written ++ '\n' :: (blanks k ++ rest)) col (i :: cols) ts allowed)
    (hquote : ∃ more, written = quoteOf single :: more)
    (hread : readQuoted single p.cursor = some (s, p.cursor.beyond written))
    (hcol : i < col) (hrest : Starts rest) :
    ∃ q, readToken p = some q ∧ Lands q rest k (i :: cols) (.scalar s .quoted :: ts) ∧
      q.cursor.rest.length < p.cursor.rest.length := by
  obtain ⟨more, rfl⟩ := hquote
  have hnext := Cursor.rest_beyond h.rest
  have htoken : quotedToken single p.cursor = some (.scalar s .quoted, false,
      p.cursor.beyond (quoteOf single :: more)) := by
    rw [quotedToken, hread]
    rfl
  obtain ⟨q, hq, hcursor, hcols, hts, hcount, houter, hallowed, hcandidate⟩ :=
    h.keyToken htoken
  refine ⟨q, by rw [readToken_quote h]; exact hq, ?_, ?_⟩
  · refine lands_of_feed (by rw [hcursor, hnext]) hrest hcols hts hcount houter ?_
    intro key hkey
    rw [hcandidate] at hkey
    obtain ⟨hrequired, hline⟩ := h.candidate_inside hcol hkey
    rw [hcursor]
    exact ⟨hrequired, Nat.le_trans hline (Cursor.line_le_beyond _ _)⟩
  · rw [hcursor, hnext, h.rest]
    simp only [List.length_append, List.length_cons]
    omega

/-- A block of lines. -/
lemma Ready.block
    (h : Ready p (blockOfLines (i + 2) cs ++ (blanks k ++ rest)) col
      (i :: cols) ts allowed)
    (hcs : allowsBlock cs = true) (hfeed : '\n' ∈ cs) (hk : k ≤ i) (hrest : Starts rest) :
    ∃ q, readToken p = some q ∧
      Lands q rest k (i :: cols) (.scalar (String.ofList cs) .quoted :: ts) ∧
      q.cursor.rest.length < p.cursor.rest.length := by
  have hread : readBlock true p.indents.head? p.cursor
      = some (String.ofList cs, p.cursor.beyond (blockOfLines (i + 2) cs ++ blanks k)) := by
    rw [h.indents]
    exact readBlock_blockOfLines h.rest hcs hfeed (by omega) hrest.solid
  obtain ⟨more, hbar⟩ : ∃ more, blockOfLines (i + 2) cs = '|' :: more := ⟨_, rfl⟩
  obtain ⟨lines, b, hlines, hb⟩ := blockOfLines_ends (i + 2) cs
  have hthere : p.cursor.rest = (blockOfLines (i + 2) cs ++ blanks k) ++ rest := by
    rw [h.rest, List.append_assoc]
  have hnext := Cursor.rest_beyond hthere
  have htoken : readToken p = some { (p.push (.scalar (String.ofList cs) .quoted)) with
      keyCandidate := none
      cursor := p.cursor.beyond (blockOfLines (i + 2) cs ++ blanks k)
      keyAllowed := true } := by
    have hready := h
    rw [hbar] at hready
    rw [readToken_bar hready, blockScalar, h.dropKey]
    simp only [Option.bind_eq_bind, Option.bind_some, hread]
    rfl
  refine ⟨_, htoken, ?_, ?_⟩
  · refine Ready.lands ⟨hnext, ?_, h.indents, ?_, ?_, h.outer, rfl,
      fun key hkey => by cases hkey⟩ hrest
    · show (p.cursor.beyond (blockOfLines (i + 2) cs ++ blanks k)).column = k
      rw [hlines, List.append_assoc, Cursor.beyond_append]
      exact column_beyond_break_blanks hb k _
    · show _ :: p.tokens = _
      rw [h.tokens]
    · show p.count + 1 = _
      rw [List.length_cons, h.count]
  · show (p.cursor.beyond (blockOfLines (i + 2) cs ++ blanks k)).rest.length <
      p.cursor.rest.length
    rw [hnext, hthere, hbar]
    simp only [List.length_append, List.length_cons]
    omega

end

/-! ## Values -/

/-- A settled pass that reads one token and more, and lands. -/
def Goes (p : Pass) (rest : List Char) (col : Nat) (cols : List Nat) (ts : List Token) :
    Prop :=
  ∃ q r, readToken p = some q ∧ q.cursor.rest.length < p.cursor.rest.length ∧ Reads q r ∧
    Lands r rest col cols ts

/-- A pass that lands after some turns. -/
def Leads (p : Pass) (rest : List Char) (col : Nat) (cols : List Nat) (ts : List Token) :
    Prop :=
  ∃ q, Reads p q ∧ Lands q rest col cols ts

section
variable {p : Pass} {rest : List Char} {col i k : Nat} {cols : List Nat} {ts : List Token}
  {allowed : Bool}

theorem Goes.leads (h : Goes p.settle rest col cols ts) (hmore : p.settle.cursor.rest ≠ [])
    (hle : p.settle.cursor.rest.length ≤ p.cursor.rest.length) :
    Leads p rest col cols ts := by
  obtain ⟨q, r, hq, hless, hreads, hlands⟩ := h
  exact ⟨r, .turn hmore hq (Nat.lt_of_lt_of_le hless hle) hreads, hlands⟩

/-- The text of a value. -/
theorem Ready.text {s : String}
    (h : Ready p (textLines (i + 2) s ++ (blanks k ++ rest)) col (i :: cols) ts allowed)
    (hcol : i < col) (hk : k ≤ i) (hrest : Starts rest) :
    Goes p rest k (i :: cols) (.scalar s (styleOf s) :: ts) := by
  have hfeed : ∀ (written : List Char), written ++ ['\n'] ++ (blanks k ++ rest) =
      written ++ '\n' :: (blanks k ++ rest) :=
    fun written => by rw [List.append_assoc]; rfl
  have hgoes : ∃ q, readToken p = some q ∧
      Lands q rest k (i :: cols) (.scalar (String.ofList s.toList) (styleOf s) :: ts) ∧
      q.cursor.rest.length < p.cursor.rest.length := by
    unfold textLines styleOf at *
    dsimp only at h
    -- The form of the text says which reader takes it.
    cases hform : formOf s with
    | plain =>
      rw [hform, hfeed] at h
      exact h.plain (plainText_of_formOf hform) hcol hk hrest
    | single =>
      rw [hform, hfeed] at h
      obtain ⟨hallows, hnone⟩ := of_formOf_single hform
      have hread := readQuoted_singleQuoted h.rest hallows hnone
        (Or.inl (by omega)) fun hquote => by cases hquote
      exact h.quoted true ⟨_, rfl⟩ hread hcol hrest
    | double =>
      rw [hform, hfeed] at h
      exact h.quoted false ⟨_, rfl⟩ (readQuoted_doubleQuoted h.rest) hcol hrest
    | block =>
      rw [hform] at h
      obtain ⟨hallows, hsome⟩ := of_formOf_block hform
      exact h.block hallows hsome hk hrest
  obtain ⟨q, hq, hlands, hless⟩ := hgoes
  rw [String.ofList_toList] at hlands
  exact ⟨q, q, hq, hless, .refl q, hlands⟩

/-- A number, a truth value or null. -/
theorem Ready.atom (v : Json)
    (h : Ready p (atomChars v ++ '\n' :: (blanks k ++ rest)) col (i :: cols) ts allowed)
    (hcol : i < col) (hk : k ≤ i) (hrest : Starts rest) :
    Goes p rest k (i :: cols) (.scalar (String.ofList (atomChars v)) .plain :: ts) := by
  obtain ⟨q, hq, hlands, hless⟩ := h.plain (plainText_atomChars v) hcol hk hrest
  exact ⟨q, q, hq, hless, .refl q, hlands⟩

/-- Inside brackets nothing is closed by its column. -/
lemma settle_inFlow (hrest : Starts p.cursor.rest) (hflow : p.inFlow = true) :
    p.settle = p := by
  rw [Pass.settle, toNextToken_blanks (n := 0) rfl hrest]
  show closeBlocks _ p = p
  rw [closeBlocks, hflow]
  rfl

/-- A pass behind an opening bracket, which keeps the key candidate for later. -/
def behindOpen (t : Token) (key : Option KeyCandidate) (p : Pass) : Pass :=
  { p with cursor := p.cursor.skip 1, tokens := t :: p.tokens, count := p.count + 1
           outerKeys := key :: p.outerKeys
           keyCandidate := none, keyAllowed := true }

lemma Ready.openFlow {text : List Char} (h : Ready p text col cols ts allowed) (t : Token) :
    openFlow t p = some
      (behindOpen t (if allowed then some (candidateHere p) else p.keyCandidate) p) := by
  unfold Pass.openFlow saveKey
  rw [h.allowed]
  cases allowed with
  | false =>
    simp only [Bool.false_eq_true, if_false, Option.bind_eq_bind, Option.bind_some]
    rfl
  | true =>
    simp only [if_true, h.dropKey, Option.bind_eq_bind, Option.bind_some]
    rfl

/-- A pass behind two brackets with nothing between them. -/
def behindClose (t t' : Token) (key : Option KeyCandidate) (p : Pass) : Pass :=
  { p with cursor := (p.cursor.skip 1).skip 1
           tokens := t' :: t :: p.tokens, count := p.count + 2
           keyCandidate := key, keyAllowed := false }

lemma closeFlow_behindOpen (t t' : Token) (key : Option KeyCandidate) (p : Pass) :
    closeFlow t' (behindOpen t key p) = some (behindClose t t' key p) := rfl

/-- Two brackets with nothing between them, of whatever kind, are two tokens. -/
lemma Ready.goes_brackets {a b : Char} {t t' : Token}
    (h : Ready p (a :: b :: '\n' :: (blanks k ++ rest)) col (i :: cols) ts allowed)
    (hcol : i < col) (hrest : Starts rest) (hb : Starts (b :: '\n' :: (blanks k ++ rest)))
    (hopen : readToken p = Pass.openFlow t p)
    (hclose : ∀ q : Pass, q.cursor.rest = b :: '\n' :: (blanks k ++ rest) →
      readToken q = closeFlow t' q) :
    Goes p rest k (i :: cols) (t' :: t :: ts) := by
  generalize hkey : (if allowed then some (candidateHere p) else p.keyCandidate) = key
  have hcandidate : ∀ c, key = some c → c.required = false ∧ c.line ≤ p.cursor.line := by
    intro c hc
    rw [← hkey] at hc
    exact h.candidate_inside hcol hc
  have hinside : (behindOpen t key p).cursor.rest = b :: '\n' :: (blanks k ++ rest) := by
    show p.cursor.rest.drop 1 = _
    rw [h.rest]
    rfl
  have houtside : ((p.cursor.skip 1).skip 1).rest = '\n' :: (blanks k ++ rest) := by
    show (p.cursor.rest.drop 1).drop 1 = _
    rw [h.rest]
    rfl
  have hsettle : (behindOpen t key p).settle = behindOpen t key p :=
    settle_inFlow (by rw [hinside]; exact hb) rfl
  refine ⟨behindOpen t key p, behindClose t t' key p, ?_, ?_, ?_, ?_⟩
  · rw [hopen, h.openFlow, hkey]
  · rw [hinside, h.rest]
    exact Nat.lt_succ_self _
  · have hread : readToken (behindOpen t key p).settle =
        some (behindClose t t' key p) := by
      rw [hsettle, hclose _ hinside, closeFlow_behindOpen]
    refine .turn ?_ hread ?_ (.refl _)
    · rw [hsettle, hinside]
      exact List.cons_ne_nil _ _
    · show ((p.cursor.skip 1).skip 1).rest.length < _
      rw [houtside, hinside]
      exact Nat.lt_succ_self _
  · refine lands_of_feed houtside hrest h.indents ?_ ?_ h.outer hcandidate
    · show _ :: _ :: p.tokens = _
      rw [h.tokens]
    · show p.count + 2 = _
      rw [List.length_cons, List.length_cons, h.count]

/-- No marker of a document begins with another character than its own. -/
lemma not_atMarkers {ch : Char} {t : List Char} (h : p.cursor.rest = ch :: t)
    (hdash : ch ≠ '-') (hdot : ch ≠ '.') :
    p.cursor.atMarker '-' = false ∧ p.cursor.atMarker '.' = false :=
  ⟨atMarker_of_head h hdash, atMarker_of_head h hdot⟩

/-- An empty list or table. -/
theorem Ready.brackets (table : Bool)
    (h : Ready p (Yaml.brackets table ++ '\n' :: (blanks k ++ rest)) col
      (i :: cols) ts allowed) (hcol : i < col)
    (hrest : Starts rest) :
    Goes p rest k (i :: cols) ((bracketTokens table).reverse ++ ts) := by
  cases table with
  | false =>
    show Goes p rest k (i :: cols) (.flowListEnd :: .flowListStart :: ts)
    refine Ready.goes_brackets h hcol hrest ?_ ?_ ?_
    · intro ch hch
      obtain rfl := Option.some.inj hch
      decide
    · have hmarks := not_atMarkers h.rest (by decide) (by decide)
      rw [readToken, h.rest]
      simp [Yaml.brackets, hmarks]
    · intro q hq
      have hmarks := not_atMarkers hq (by decide) (by decide)
      rw [readToken, hq]
      simp [hmarks]
  | true =>
    show Goes p rest k (i :: cols) (.flowTableEnd :: .flowTableStart :: ts)
    refine Ready.goes_brackets h hcol hrest ?_ ?_ ?_
    · intro ch hch
      obtain rfl := Option.some.inj hch
      decide
    · have hmarks := not_atMarkers h.rest (by decide) (by decide)
      rw [readToken, h.rest]
      simp [Yaml.brackets, hmarks]
    · intro q hq
      have hmarks := not_atMarkers hq (by decide) (by decide)
      rw [readToken, hq]
      simp [hmarks]

end

/-! ## Short names -/

section
variable {p : Pass} {t : List Char} {x : Char} {name : String} {col : Nat}
  {cols : List Nat} {ts : List Token}

/-- A short name is one token, which may start a key. -/
lemma Ready.shortKey_token (h : Ready p (shortKey name ++ ':' :: x :: t) col cols ts true)
    (hname : isShortKey name = true) (hx : (isGap x || isBreak x) = true)
    (hcols : ∀ i, cols.head? = some i → i ≤ col) :
    ∃ q, readToken p = some q ∧ q.cursor = p.cursor.beyond (shortKey name) ∧
      q.indents = cols ∧
      q.tokens = .scalar name (styleOf name) :: ts ∧ q.count = ts.length + 1 ∧
      q.outerKeys = [] ∧
      q.keyAllowed = false ∧ q.keyCandidate = some (candidateHere p) := by
  obtain ⟨hone, -⟩ := of_isShortKey hname
  -- The form of the name says which reader takes it.
  rcases shortKey_cases name with ⟨hform, hkey⟩ | ⟨hform, hkey⟩ | ⟨hform, hkey⟩
  · have hplain := plainText_of_formOf hform
    have hend : PlainEnd (cols.head?.elim 0 (· + 1)) (':' :: x :: t) false [] := .colon hx
    have hindent : cols.head?.elim 0 (· + 1) ≤ p.cursor.column + 1 := by
      rw [h.column]
      cases hhead : cols.head? with
      | none => exact Nat.zero_le _
      | some i => exact Nat.succ_le_succ (hcols i hhead)
    rw [hkey] at h ⊢
    have hread := hplain.readPlain h.rest hend hindent
    rw [List.append_nil, String.ofList_toList] at hread
    have hstyle : styleOf name = .plain := if_pos hform
    rw [readToken_plain h hplain hend, hstyle]
    exact h.keyToken (by rw [plainToken, hread]; rfl)
  · rw [hkey] at h ⊢
    obtain ⟨hallows, hfeed⟩ := of_formOf_single hform
    have hread := readQuoted_singleQuoted h.rest hallows hfeed
      (Or.inr hone) fun hquote => by cases hquote
    rw [String.ofList_toList] at hread
    have hstyle : styleOf name = .quoted := if_neg (by rw [hform]; decide)
    have hready : Ready p (quoteOf true :: _) col cols ts true := h
    rw [readToken_quote hready, hstyle]
    exact h.keyToken (by rw [quotedToken, hread]; rfl)
  · rw [hkey] at h ⊢
    have hread := readQuoted_doubleQuoted h.rest
    rw [String.ofList_toList] at hread
    have hstyle : styleOf name = .quoted := if_neg hform
    have hready : Ready p (quoteOf false :: _) col cols ts true := h
    rw [readToken_quote hready, hstyle]
    exact h.keyToken (by rw [quotedToken, hread]; rfl)

/-- A colon makes a key of the token before it, in a table of its own if none is open at
its column. -/
lemma readToken_colon {q : Pass} {key : KeyCandidate} {token : Token}
    (hrest : q.cursor.rest = ':' :: x :: t) (hx : (isGap x || isBreak x) = true)
    (houter : q.outerKeys = []) (hindents : q.indents = cols)
    (htokens : q.tokens = token :: ts) (hcount : q.count = ts.length + 1)
    (hkey : q.keyCandidate = some key) (hposition : key.position = ts.length)
    (hcolumn : key.column = col) (hreach : q.keyInReach key = true) :
    ∃ r, readToken q = some r ∧ r.keyCandidate = none ∧
      Ready r (x :: t) (q.cursor.column + 1) (openedCols col cols)
        (.value :: token :: .key :: openedTokens .blockTableStart col cols ts) false := by
  have hdash : q.cursor.atMarker '-' = false := atMarker_of_head hrest (by decide)
  have hdot : q.cursor.atMarker '.' = false := atMarker_of_head hrest (by decide)
  have hflow : q.inFlow = false := by rw [Pass.inFlow, houter]; rfl
  have hread : readToken q = q.valueSign := by
    have hgap : atGapOrEnd (x :: t) = true := hx
    rw [readToken, hrest]
    simp [hdash, hdot, hgap]
  have hfilter : q.keyCandidate.filter q.keyInReach = some key := by
    rw [hkey, Option.filter_some, hreach]
    rfl
  -- The key token goes in front of the last one.
  generalize hmarked : q.insert key.position .key = marked
  have hmarkedTokens : marked.tokens = token :: .key :: ts := by
    rw [← hmarked]
    show q.tokens.insertIdx (q.count - key.position) .key = _
    rw [hcount, hposition, Nat.add_sub_cancel_left, htokens]
    rfl
  have hmarkedCount : marked.count = ts.length + 2 := by
    rw [← hmarked]
    show q.count + 1 = _
    rw [hcount]
  have hmarkedFlow : marked.inFlow = false := by
    rw [← hmarked]
    exact hflow
  have hmarkedIndents : marked.indents = cols := by
    rw [← hmarked]
    exact hindents
  have hopened : Ready { marked.openBlock col
      (some ts.length) .blockTableStart with keyCandidate := none }
      (':' :: x :: t) q.cursor.column (openedCols col cols)
      (token :: .key :: openedTokens .blockTableStart col cols ts) q.keyAllowed := by
    unfold Pass.openBlock openedCols openedTokens
    rw [hmarkedFlow, hmarkedIndents, if_neg (by decide)]
    subst hmarked
    split
    · exact ⟨hrest, rfl, hindents, hmarkedTokens, hmarkedCount, houter, rfl,
        fun k hk => by cases hk⟩
    · refine ⟨hrest, rfl, rfl, ?_, ?_, houter, rfl, fun k hk => by cases hk⟩
      · show (q.insert key.position .key).tokens.insertIdx
          ((q.insert key.position .key).count - ts.length) _ = _
        rw [hmarkedTokens, hmarkedCount, Nat.add_sub_cancel_left]
        rfl
      · show (q.insert key.position .key).count + 1 = _
        rw [hmarkedCount]
        rfl
  -- The sign of the value is taken behind the marks that were put in.
  refine ⟨_, ?_, rfl, hopened.take .value false⟩
  rw [hread, valueSign, hfilter]
  dsimp only
  rw [hmarked, hposition, hcolumn]

/-- A short name and the colon behind it. -/
theorem Ready.shortKey (h : Ready p (shortKey name ++ ':' :: x :: t) col cols ts true)
    (hname : isShortKey name = true) (hx : (isGap x || isBreak x) = true)
    (hcols : ∀ i, cols.head? = some i → i ≤ col) :
    ∃ q r, readToken p = some q ∧ q.cursor.rest.length < p.cursor.rest.length ∧ Reads q r ∧
      r.cursor.rest.length < p.cursor.rest.length ∧ r.keyCandidate = none ∧
      ∃ after, col < after ∧
        Ready r (x :: t) after (openedCols col cols)
          (.value :: .scalar name (styleOf name) :: .key ::
            openedTokens .blockTableStart col cols ts) false := by
  obtain ⟨q, hq, hcursor, hindents, htokens, hcount, houter, hallowed, hkey⟩ :=
    h.shortKey_token hname hx hcols
  have hone := shortKey_one_line hname
  have hrest : q.cursor.rest = ':' :: x :: t := by
    rw [hcursor]
    exact Cursor.rest_beyond h.rest
  have hcolumn : q.cursor.column = col + (Yaml.shortKey name).length := by
    rw [hcursor, Cursor.column_beyond_of_one_line hone, h.column]
  -- A short name is on one line and not long, so that the key is near enough.
  have hreach : q.keyInReach (candidateHere p) = true := by
    have hlength := length_shortKey_le hname
    have hline : (candidateHere p).line = q.cursor.line := by
      rw [hcursor, Cursor.line_beyond_of_one_line hone]
      rfl
    have hindex : q.cursor.index ≤ (candidateHere p).index + 1024 := by
      rw [hcursor, Cursor.index_beyond]
      exact Nat.add_le_add_left hlength _
    rw [keyInReach, hline, beq_self_eq_true, decide_eq_true hindex]
    rfl
  obtain ⟨r, hr, hnone, hready⟩ :=
    readToken_colon hrest hx houter hindents htokens hcount hkey h.count h.column hreach
  have hstarts : Starts (':' :: x :: t) := by
    intro ch hch
    obtain rfl := Option.some.inj hch
    decide
  have hsettle : q.settle = q := by
    refine settle_self (by rw [hrest]; exact hstarts) houter ?_
    intro i hi
    rw [hindents] at hi
    rw [hcolumn]
    exact Nat.le_trans (hcols i hi) (Nat.le_add_right _ _)
  have hshort := List.length_pos_iff.mpr (shortKey_ne_nil name)
  have hlength : p.cursor.rest.length = (Yaml.shortKey name).length +
      q.cursor.rest.length := by
    rw [h.rest, hrest, List.length_append]
  have hless : r.cursor.rest.length < q.cursor.rest.length := by
    rw [hready.rest, hrest]
    exact Nat.lt_succ_self _
  refine ⟨q, r, hq, by omega, .turn ?_ ?_ hless (.refl r), by omega, hnone, _, ?_, hready⟩
  · rw [hsettle, hrest]
    exact List.cons_ne_nil _ _
  · rw [hsettle, hr]
  · omega

end

end Workplan.Yaml.Pass
