import Mathlib.Tactic.Lemma
import Workplan.Proofs.Toml.Blanks

/-!
# Texts and keys

Texts in their four kinds of quotes, and keys, are read as the grammar writes them.
Each construct has a lemma for either direction: what is read is written by the grammar,
and what the grammar writes is read, where the characters behind it do not continue it.
-/

namespace Workplan.Toml.Grammar

open Reader

/-! ## Texts on one line -/

section
variable {cs rest : List Char}

/-- A number is that of at most one character. -/
lemma charOfNumber?_eq_some_iff {n : Nat} {c : Char} :
    charOfNumber? n = some c ↔ n = c.toNat := by
  unfold charOfNumber?
  constructor
  · intro h
    split at h
    · next hvalid =>
      obtain rfl := Option.some.inj h
      rw [Char.ofNat, dif_pos hvalid]
      rfl
    · cases h
  · rintro rfl
    rw [if_pos, Char.ofNat_toNat]
    exact c.valid.imp id id

/-- The digits of a numbered escape. -/
lemma numbered_eq_some_iff {n : Nat} {c : Char} :
    (if cs.length < n then none
      else ((Workplan.Text.natOfDigits? 16 (cs.take n)).bind charOfNumber?).bind
        fun c => some (c, cs.drop n)) = some (c, rest) ↔
      ∃ ds : List Char, cs = ds ++ rest ∧ ds.length = n ∧
        Workplan.Text.natOfDigits? 16 ds = some c.toNat := by
  constructor
  · intro h
    split at h
    · cases h
    · next hlength =>
      rw [Option.bind_eq_some_iff] at h
      obtain ⟨c', hc', heq⟩ := h
      obtain ⟨rfl, rfl⟩ := Prod.mk.inj (Option.some.inj heq)
      obtain ⟨m, hm, hchar⟩ := Option.bind_eq_some_iff.mp hc'
      rw [charOfNumber?_eq_some_iff] at hchar
      refine ⟨cs.take n, (List.take_append_drop n cs).symm, ?_, hchar ▸ hm⟩
      rw [List.length_take]
      omega
  · rintro ⟨ds, rfl, rfl, hds⟩
    -- All digits are there, and what they come to is a character because it is one.
    have hlength : ¬ (ds ++ rest).length < ds.length := by
      rw [List.length_append]; omega
    rw [if_neg hlength, List.take_left, List.drop_left, hds]
    show (charOfNumber? c.toNat).bind _ = _
    rw [charOfNumber?_eq_some_iff.mpr rfl]
    rfl

/-- Escapes are read exactly as the grammar has them. -/
lemma escape_eq_some_iff {c : Char} :
    escape cs = some (c, rest) ↔ Escape cs c rest := by
  constructor
  · intro h
    unfold escape at h
    split at h
    · cases h; exact .backspace
    · cases h; exact .tab
    · cases h; exact .lineFeed
    · cases h; exact .formFeed
    · cases h; exact .carriageReturn
    · cases h; exact .quote
    · cases h; exact .backslash
    · obtain ⟨ds, rfl, hlength, hds⟩ := numbered_eq_some_iff.mp h
      exact .short hlength hds
    · obtain ⟨ds, rfl, hlength, hds⟩ := numbered_eq_some_iff.mp h
      exact .long hlength hds
    · cases h
  · intro h
    cases h with
    | backspace => rfl
    | tab => rfl
    | lineFeed => rfl
    | formFeed => rfl
    | carriageReturn => rfl
    | quote => rfl
    | backslash => rfl
    | short hlength hds => exact numbered_eq_some_iff.mpr ⟨_, rfl, hlength, hds⟩
    | long hlength hds => exact numbered_eq_some_iff.mpr ⟨_, rfl, hlength, hds⟩

lemma Escape.length_lt {c : Char} (h : Escape cs c rest) : rest.length < cs.length := by
  cases h with
  | short hlength => rw [List.length_cons, List.length_append]; omega
  | long hlength => rw [List.length_cons, List.length_append]; omega
  | _ => exact Nat.lt_succ_self _

/-- An escape starts with no line break. -/
lemma Escape.not_gap {c : Char} (h : Escape cs c rest) :
    lineBreak? (skipGap cs) = none := by
  cases h <;> rfl

lemma basic_sound {fuel : Nat} {acc : List Char} {s : String}
    (h : basic fuel acc cs = some (s, rest)) :
    ∃ t, Basic cs t rest ∧ s = String.ofList (acc.reverse ++ t) := by
  -- What has been read already stands in front, in reverse.
  induction fuel generalizing acc cs with
  | zero => cases h
  | succ fuel ih =>
    unfold basic at h
    split at h
    · cases h
      exact ⟨[], .close, by rw [List.append_nil]⟩
    · obtain ⟨⟨c, cs₁⟩, hescape, hbasic⟩ := Option.bind_eq_some_iff.mp h
      obtain ⟨t, ht, rfl⟩ := ih hbasic
      exact ⟨c :: t, .escaped (escape_eq_some_iff.mp hescape) ht,
        by rw [List.reverse_cons, List.append_assoc]; rfl⟩
    · next c cs hquote hslash =>
      split at h
      · next hprintable =>
        obtain ⟨t, ht, rfl⟩ := ih h
        refine ⟨c :: t, .plain ?_ ?_ hprintable ht,
          by rw [List.reverse_cons, List.append_assoc]; rfl⟩
        · exact fun hc => hquote hc
        · exact fun hc => hslash hc
      · cases h
    · cases h

/-- A text on one line is read up to its closing quote. -/
lemma Basic.basic_eq {t : List Char} (h : Basic cs t rest) {fuel : Nat}
    (hfuel : cs.length < fuel) (acc : List Char) :
    basic fuel acc cs = some (String.ofList (acc.reverse ++ t), rest) := by
  induction h generalizing fuel acc with
  | close =>
    obtain ⟨fuel, rfl⟩ := Nat.exists_eq_succ_of_ne_zero (Nat.ne_zero_of_lt hfuel)
    rw [basic, List.append_nil]
  | @plain c cs s rest hquote hslash hprintable _ ih =>
    obtain ⟨fuel, rfl⟩ := Nat.exists_eq_succ_of_ne_zero (Nat.ne_zero_of_lt hfuel)
    have hread := ih (Nat.lt_of_succ_lt_succ hfuel) (c :: acc)
    rw [List.reverse_cons, List.append_assoc, List.singleton_append] at hread
    rw [← hread]
    -- Only the reader is to be unfolded here, not what it goes on to.
    conv => lhs; unfold basic
    split
    · next heq => exact absurd (List.cons.inj heq).1 hquote
    · next heq => exact absurd (List.cons.inj heq).1 hslash
    · next heq =>
      obtain ⟨rfl, rfl⟩ := List.cons.inj heq
      rw [if_pos hprintable]
    · next heq => cases heq
  | @escaped c cs cs₁ s rest hescape _ ih =>
    obtain ⟨fuel, rfl⟩ := Nat.exists_eq_succ_of_ne_zero (Nat.ne_zero_of_lt hfuel)
    have hlength := hescape.length_lt
    have hread := ih (show cs₁.length < fuel by rw [List.length_cons] at hfuel; omega)
      (c :: acc)
    rw [List.reverse_cons, List.append_assoc, List.singleton_append] at hread
    show (escape cs).bind (fun x => basic fuel (x.1 :: acc) x.2) = _
    rw [escape_eq_some_iff.mpr hescape, ← hread]
    rfl

lemma Basic.length_lt {t : List Char} (h : Basic cs t rest) :
    rest.length < cs.length := by
  induction h with
  | close => exact Nat.lt_succ_self _
  | plain _ _ _ _ ih => exact Nat.lt_succ_of_lt ih
  | escaped hescape _ ih => exact Nat.lt_succ_of_lt (Nat.lt_trans ih hescape.length_lt)

/-- Texts without escapes are read exactly as the grammar has them. -/
lemma literal_eq_some_iff {s : String} :
    literal cs = some (s, rest) ↔ ∃ t, Literal cs t rest ∧ s = String.ofList t := by
  have hrun := run_takeWhile (fun c => c != '\'' && isPrintable c) cs
  have hdrop := hrun.drop_eq
  constructor
  · intro h
    unfold literal at h
    dsimp only at h
    rw [hdrop] at h
    split at h
    · next heq =>
      cases h
      rw [heq] at hrun
      exact ⟨_, hrun, rfl⟩
    · cases h
  · rintro ⟨t, hliteral, rfl⟩
    -- The quote ends the run, so that the run is all in front of it.
    have hend : ∀ c ∈ ('\'' :: rest).head?, (c != '\'' && isPrintable c) = false := by
      intro c hc
      cases hc
      rfl
    unfold literal
    dsimp only
    rw [hdrop, hliteral.dropWhile_eq hend, hliteral.takeWhile_eq hend]
    rfl

lemma Literal.length_lt {t : List Char} (h : Literal cs t rest) :
    rest.length < cs.length := by
  have := Run.length_eq h
  rw [List.length_cons] at this
  omega

end

/-! ## Texts of several lines -/

section
variable {cs rest : List Char}

/-- The reader skips all white space behind a backslash that ends a line. -/
lemma fold_skipFold (cs : List Char) : Fold cs (skipFold cs) := by
  induction cs using skipFold.induct with
  | case1 rest ih => exact .gap rfl ih
  | case2 rest ih => exact .gap rfl ih
  | case3 rest ih => exact .line .lf ih
  | case4 rest ih => exact .line .crlf ih
  | case5 cs hspace htab hlf hcrlf =>
    rw [skipFold.eq_5 cs hspace htab hlf hcrlf]
    refine .stop (fun c hc => ?_) fun rest hbreak => ?_
    · cases cs with
      | nil => cases hc
      | cons c' cs =>
        cases hc
        rw [isGap, Bool.or_eq_false_iff, beq_eq_false_iff_ne, beq_eq_false_iff_ne]
        exact ⟨fun heq => hspace cs (by rw [heq]), fun heq => htab cs (by rw [heq])⟩
    · cases hbreak with
      | lf => exact hlf rest rfl
      | crlf => exact hcrlf rest rfl

lemma Fold.skipFold_eq (h : Fold cs rest) : skipFold cs = rest := by
  induction h with
  | stop hgap hbreak =>
    -- Neither a gap nor a break is in front, so that no other equation applies.
    refine skipFold.eq_5 _ ?_ ?_ ?_ ?_
    · rintro rest rfl
      exact absurd (hgap ' ' rfl) (by decide)
    · rintro rest rfl
      exact absurd (hgap '\t' rfl) (by decide)
    · rintro rest rfl
      exact hbreak rest .lf
    · rintro rest rfl
      exact hbreak rest .crlf
  | @gap c cs rest hgap _ ih =>
    rw [isGap, Bool.or_eq_true, beq_iff_eq, beq_iff_eq] at hgap
    rcases hgap with rfl | rfl
    · exact ih
    · exact ih
  | line hbreak _ ih =>
    cases hbreak with
    | lf => exact ih
    | crlf => exact ih

lemma Fold.length_le (h : Fold cs rest) : rest.length ≤ cs.length := by
  induction h with
  | stop => exact Nat.le_refl _
  | gap _ _ ih => exact Nat.le_succ_of_le ih
  | line hbreak _ ih => exact Nat.le_trans ih (Nat.le_of_lt hbreak.length_lt)

end

/-- The two kinds of quotes. -/
def IsQuote (c : Char) : Prop :=
  c = '"' ∨ c = '\''

section
variable {quote : Char} {escapes : Bool} {cs cs₁ s rest : List Char}

lemma Content.length_lt (h : Content quote escapes cs s rest) :
    rest.length < cs.length := by
  cases h with
  | plain => exact Nat.lt_succ_self _
  | line hbreak => exact hbreak.length_lt
  | escaped _ hescape => exact Nat.lt_succ_of_lt hescape.length_lt
  | fold _ hgap hbreak hfold =>
    have := hgap.length_le
    have := hbreak.length_lt
    have := hfold.length_le
    rw [List.length_cons]
    omega

/-- A part of a text of several lines does not begin with a quote. -/
lemma Content.head (hquote : IsQuote quote) (h : Content quote escapes cs s rest) :
    ∀ c ∈ cs.head?, c ≠ quote := by
  intro c hc
  cases h with
  | plain hne => cases hc; exact hne
  | line hbreak => cases hbreak <;> cases hc <;> rcases hquote with rfl | rfl <;> decide
  | escaped => cases hc; rcases hquote with rfl | rfl <;> decide
  | fold => cases hc; rcases hquote with rfl | rfl <;> decide

lemma Multiline.length_lt (h : Multiline quote escapes cs s rest) :
    rest.length < cs.length := by
  induction h with
  | close => simp only [List.length_append, List.length_cons]; omega
  | part _ hcontent _ ih =>
    have := hcontent.length_lt
    rw [List.length_append]
    omega

/-- The run of quotes at the front. -/
lemma quotes_eq {n : Nat} (hhead : ∀ c ∈ rest.head?, c ≠ quote) :
    (List.replicate n quote ++ rest).takeWhile (· == quote) =
      List.replicate n quote := by
  have hrun : Run (· == quote) (List.replicate n quote ++ rest)
      (List.replicate n quote) rest :=
    ⟨rfl, fun c hc => beq_iff_eq.mpr (List.eq_of_mem_replicate hc)⟩
  exact hrun.takeWhile_eq fun c hc => beq_eq_false_iff_ne.mpr (hhead c hc)

lemma exists_quotes (quote : Char) (cs : List Char) :
    ∃ n rest, cs = List.replicate n quote ++ rest ∧ (∀ c ∈ rest.head?, c ≠ quote) := by
  refine ⟨(cs.takeWhile (· == quote)).length, cs.dropWhile (· == quote),
    ?_, fun c hc => ?_⟩
  · have hall : cs.takeWhile (· == quote) =
        List.replicate (cs.takeWhile (· == quote)).length quote :=
      List.eq_replicate_iff.mpr
        ⟨rfl, fun c hc => beq_iff_eq.mp ((run_takeWhile _ cs).2 c hc)⟩
    rw [← hall, List.takeWhile_append_dropWhile]
  · have hnot := List.head?_dropWhile_not (· == quote) cs
    rw [hc] at hnot
    exact beq_eq_false_iff_ne.mp hnot

/-- Fewer than three quotes are part of the text. -/
lemma multiline_quotes {n : Nat} (hn : n ≤ 2) (hhead : ∀ c ∈ rest.head?, c ≠ quote)
    (fuel : Nat) (acc : List Char) :
    multiline quote escapes (fuel + n) acc (List.replicate n quote ++ rest)
      = multiline quote escapes fuel (List.replicate n quote ++ acc) rest := by
  induction n generalizing acc with
  | zero => rfl
  | succ n ih =>
    -- The run of quotes is as long as it looks, since another character follows it.
    have hlength := congrArg List.length (quotes_eq (n := n + 1) hhead)
    rw [List.length_replicate] at hlength
    have hstep : multiline quote escapes (fuel + n + 1) acc
        (List.replicate (n + 1) quote ++ rest)
        = multiline quote escapes (fuel + n) (quote :: acc)
          (List.replicate n quote ++ rest) := by
      rw [List.replicate_succ, List.cons_append] at hlength ⊢
      rw [multiline]
      dsimp only
      rw [if_pos (beq_self_eq_true quote), hlength, if_pos (by omega)]
    rw [← Nat.add_assoc, hstep, ih (by omega), ← List.singleton_append,
      ← List.append_assoc, ← List.replicate_succ']

/-- Three to five quotes close the text. -/
lemma multiline_close {n : Nat} (hn : n ≤ 2) (hhead : ∀ c ∈ rest.head?, c ≠ quote)
    (fuel : Nat) (acc : List Char) :
    multiline quote escapes (fuel + 1) acc (List.replicate (n + 3) quote ++ rest)
      = some (String.ofList (acc.reverse ++ List.replicate n quote), rest) := by
  have hlength := congrArg List.length (quotes_eq (n := n + 3) hhead)
  have hdrop : (List.replicate (n + 3) quote ++ rest).drop (n + 3) = rest :=
    List.drop_left' List.length_replicate
  rw [List.length_replicate] at hlength
  rw [List.replicate_succ, List.cons_append] at hlength hdrop ⊢
  rw [multiline]
  dsimp only
  rw [if_pos (beq_self_eq_true quote), hlength, if_neg (by omega), if_neg (by omega),
    hdrop, Nat.add_sub_cancel, List.reverse_append, List.reverse_replicate]

/-- A part of the text that is no quote. -/
lemma Content.multiline_eq (hquote : IsQuote quote) (h : Content quote escapes cs s cs₁)
    (fuel : Nat) (acc : List Char) : multiline quote escapes (fuel + 1) acc cs =
      multiline quote escapes fuel (s.reverse ++ acc) cs₁ := by
  -- A backslash is not taken for the quote.
  have hslash : ('\\' == quote) = false := by rcases hquote with rfl | rfl <;> rfl
  cases h with
  | @plain c rest hne hescape hprintable =>
    have hplain : (c == '\\' && escapes) = false := by
      rw [Bool.and_eq_false_iff, beq_eq_false_iff_ne]
      by_cases hc : c = '\\'
      · exact Or.inr (hescape hc)
      · exact Or.inl hc
    have hbreak : lineBreak? (c :: cs₁) = none := by
      refine lineBreak?_eq_none_iff.mpr fun rest' hbreak => ?_
      rw [(hbreak.head c rfl).1] at hprintable
      cases hprintable
    rw [multiline]
    dsimp only
    rw [if_neg (by simpa using hne), hplain, if_neg Bool.false_ne_true, hbreak]
    dsimp only
    rw [if_pos hprintable]
    rfl
  | line hbreak =>
    cases hbreak with
    | lf => rcases hquote with rfl | rfl <;> rfl
    | crlf => rcases hquote with rfl | rfl <;> rfl
  | @escaped c cs rest hescapes hescape =>
    rw [multiline, hescapes]
    dsimp only
    rw [if_neg (by rw [hslash]; exact Bool.false_ne_true), if_pos (by decide),
      hescape.not_gap, escape_eq_some_iff.mpr hescape]
    rfl
  | @fold cs cs₁ cs₂ rest hescapes hgap hbreak hfold =>
    have hskip : skipGap cs = cs₁ :=
      hgap.skipGap_eq.trans (skipGap_eq_self fun c hc => (hbreak.head c hc).2)
    rw [multiline, hescapes]
    dsimp only
    rw [if_neg (by rw [hslash]; exact Bool.false_ne_true), if_pos (by decide), hskip,
      lineBreak?_eq_some_iff.mpr hbreak]
    dsimp only
    rw [hfold.skipFold_eq]
    rfl

/-- A text of several lines is read up to its closing quotes. -/
lemma Multiline.multiline_eq (hquote : IsQuote quote)
    (h : Multiline quote escapes cs s rest) (hrest : ∀ c ∈ rest.head?, c ≠ quote)
    {fuel : Nat} (hfuel : cs.length < fuel) (acc : List Char) :
    multiline quote escapes fuel acc cs = some (String.ofList (acc.reverse ++ s),
      rest) := by
  -- A text of several lines is parts with a few quotes in front of each, and a few in
  -- front of the end.
  induction h generalizing fuel acc with
  | @close n rest hn =>
    obtain ⟨fuel, rfl⟩ := Nat.exists_eq_succ_of_ne_zero (Nat.ne_zero_of_lt hfuel)
    have hquotes : List.replicate n quote ++ quote :: quote :: quote ::
        rest = List.replicate (n + 3) quote ++ rest := by
      rw [← List.replicate_append_replicate, List.append_assoc]
      rfl
    rw [hquotes, multiline_close hn hrest]
  | @part n cs cs₁ s s₁ rest hn hcontent _ ih =>
    rw [List.length_append, List.length_replicate] at hfuel
    obtain ⟨fuel, rfl⟩ : ∃ m, fuel = m + 1 + n := ⟨fuel - n - 1, by omega⟩
    have := hcontent.length_lt
    rw [multiline_quotes hn (hcontent.head hquote), hcontent.multiline_eq hquote,
      ih hrest (by omega)]
    simp only [List.reverse_append, List.reverse_replicate, List.reverse_reverse,
      List.append_assoc]

/-- One more quote in front of a text that goes on. -/
lemma Multiline.quoted (hquote : IsQuote quote) (h : Multiline quote escapes cs s rest)
    (hfew : ((quote :: cs).takeWhile (· == quote)).length < 3) :
    Multiline quote escapes (quote :: cs) (quote :: s) rest := by
  -- In front of the end there would be too many quotes; a part takes one more.
  cases h with
  | @close n rest hn =>
    have hquotes : quote :: (List.replicate n quote ++ quote :: quote :: quote :: rest)
        = List.replicate (n + 4) quote ++ rest := by
      rw [show n + 4 = (n + 1) + 3 from rfl, ← List.replicate_append_replicate,
        List.append_assoc]
      rfl
    rw [hquotes, List.takeWhile_append_of_pos fun c hc =>
      beq_iff_eq.mpr (List.eq_of_mem_replicate hc), List.length_append,
      List.length_replicate] at hfew
    omega
  | @part n cs cs₁ s s₁ rest hn hcontent htail =>
    have hrun := congrArg List.length (quotes_eq (n := n + 1) (hcontent.head hquote))
    rw [List.length_replicate] at hrun
    have hn : n + 1 < 3 := hrun ▸ hfew
    exact .part (n := n + 1) (by omega) hcontent htail

/-- Three to five quotes at the front are the end of a text. -/
lemma Multiline.of_quotes {n : Nat} (hlength : (cs.takeWhile (· == quote)).length = n)
    (hmany : 3 ≤ n) (hfive : n ≤ 5) :
    Multiline quote escapes cs (List.replicate (n - 3) quote) (cs.drop n) := by
  obtain ⟨n', rest, rfl, hhead⟩ := exists_quotes quote cs
  rw [quotes_eq hhead, List.length_replicate] at hlength
  obtain ⟨m, rfl⟩ : ∃ m, n = m + 3 := ⟨n - 3, by omega⟩
  have hdrop : (List.replicate n' quote ++ rest).drop (m + 3) = rest := by
    rw [hlength, List.drop_left' List.length_replicate]
  have hclose : List.replicate n' quote ++ rest = List.replicate m quote ++ quote ::
      quote :: quote :: rest := by
    rw [hlength, ← List.replicate_append_replicate, List.append_assoc]
    rfl
  rw [hdrop, hclose, Nat.add_sub_cancel]
  exact .close (by omega)

/-- What is read up to the closing quotes is a text of several lines. -/
lemma multiline_sound (hquote : IsQuote quote) {fuel : Nat} {acc : List Char}
    {t : String} (h : multiline quote escapes fuel acc cs = some (t, rest)) :
    ∃ s, Multiline quote escapes cs s rest ∧ t = String.ofList (acc.reverse ++ s) := by
  induction fuel generalizing acc cs with
  | zero => cases h
  | succ fuel ih =>
    -- A part that is no quote, and what is read behind it.
    have hpart : ∀ {s cs₁ : List Char}, Content quote escapes cs s cs₁ →
        multiline quote escapes fuel (s.reverse ++ acc) cs₁ = some (t, rest) →
        ∃ s, Multiline quote escapes cs s rest ∧
          t = String.ofList (acc.reverse ++ s) := by
      intro s cs₁ hcontent htail
      obtain ⟨s₁, hs₁, rfl⟩ := ih htail
      refine ⟨_, .part (n := 0) (Nat.zero_le 2) hcontent hs₁, ?_⟩
      rw [List.reverse_append, List.reverse_reverse, List.append_assoc]
      rfl
    unfold multiline at h
    dsimp only at h
    split at h
    · cases h
    · next c cs =>
      split at h
      · next hc =>
        obtain rfl := beq_iff_eq.mp hc
        split at h
        · next hfew =>
          -- One or two quotes belong to the text.
          obtain ⟨s, hs, rfl⟩ := ih h
          exact ⟨_, hs.quoted hquote hfew,
            by rw [List.reverse_cons, List.append_assoc]; rfl⟩
        · split at h
          · cases h
          · next hmany hfive =>
            -- Of three to five quotes the last three close the text.
            cases h
            refine ⟨_, .of_quotes rfl (by omega) (by omega), ?_⟩
            rw [List.reverse_append, List.reverse_replicate]
      · next hc =>
        have hne : c ≠ quote := fun heq => hc (beq_iff_eq.mpr heq)
        split at h
        · next hslash =>
          -- A backslash takes a line break away, with all blanks behind it, or
          -- starts an escape.
          obtain ⟨hslash, hescapes⟩ := Bool.and_eq_true_iff.mp hslash
          obtain rfl := beq_iff_eq.mp hslash
          split at h
          · next after hbreak =>
            rw [lineBreak?_eq_some_iff] at hbreak
            exact hpart (.fold hescapes (gap_skipGap cs) hbreak (fold_skipFold after)) h
          · obtain ⟨⟨c', cs₁⟩, hescape, htail⟩ := Option.bind_eq_some_iff.mp h
            exact hpart (.escaped hescapes (escape_eq_some_iff.mp hescape)) htail
        · next hplain =>
          split at h
          · next cs₁ hbreak => exact hpart (.line (lineBreak?_eq_some_iff.mp hbreak)) h
          · split at h
            · next hprintable =>
              refine hpart (.plain hne (fun hslash => ?_) hprintable) h
              rw [hslash] at hplain
              simpa using hplain
            · cases h

/-- Behind the opening quotes one line break is left out, if there is one. -/
lemma opened_iff : Opened cs rest ↔ rest = (lineBreak? cs).getD cs := by
  constructor
  · intro h
    cases h with
    | line hbreak => rw [lineBreak?_eq_some_iff.mpr hbreak]; rfl
    | here hnot => rw [lineBreak?_eq_none_iff.mpr hnot]; rfl
  · rintro rfl
    cases hbreak : lineBreak? cs with
    | some rest => exact .line (lineBreak?_eq_some_iff.mp hbreak)
    | none => exact .here (lineBreak?_eq_none_iff.mp hbreak)

lemma Opened.length_le (h : Opened cs rest) : rest.length ≤ cs.length := by
  cases h with
  | line hbreak => exact Nat.le_of_lt hbreak.length_lt
  | here => exact Nat.le_refl _

/-- A text of several lines is read behind its opening quotes. -/
lemma Opened.multiline_eq {quote : Char} {escapes : Bool} {s : List Char}
    (hopened : Opened cs cs₁) (hquote : IsQuote quote)
    (h : Multiline quote escapes cs₁ s rest) (hrest : ∀ c ∈ rest.head?, c ≠ quote) :
    multiline quote escapes ((quote :: quote :: quote :: cs).length + 1) []
      ((lineBreak? cs).getD cs) =
      some (String.ofList s, rest) := by
  have hlength := hopened.length_le
  rw [← opened_iff.mp hopened]
  exact h.multiline_eq hquote hrest (by simp only [List.length_cons]; omega) []

/-- What is read as a text is one of the four kinds. -/
theorem text_sound {t : String} (h : text cs = some (t, rest)) : Text cs t rest := by
  unfold text at h
  dsimp only at h
  split at h
  · next cs =>
    obtain ⟨s, hs, rfl⟩ := multiline_sound (Or.inl rfl) h
    exact .multiline (opened_iff.mpr rfl) hs
  · next cs =>
    obtain ⟨s, hs, rfl⟩ := multiline_sound (Or.inr rfl) h
    exact .multilineLiteral (opened_iff.mpr rfl) hs
  · obtain ⟨s, hs, rfl⟩ := basic_sound h
    exact .basic hs
  · obtain ⟨s, hs, rfl⟩ := literal_eq_some_iff.mp h
    exact .literal hs
  · cases h

/-- A text is read to its closing quotes, if no further quote stands behind them. -/
theorem Text.text_eq {t : String} (h : Text cs t rest)
    (hrest : ∀ c ∈ rest.head?, ¬ IsQuote c) :
    text cs = some (t, rest) := by
  have hne : ∀ {quote : Char}, IsQuote quote → ∀ c ∈ rest.head?, c ≠ quote :=
    fun hquote c hc heq => hrest c hc (heq ▸ hquote)
  cases h with
  | @basic cs s _ hbasic =>
    have hread :=
      hbasic.basic_eq
        (show cs.length < ('"' :: cs).length + 1 by rw [List.length_cons]; omega) []
    unfold text
    dsimp only
    split
    · next heq =>
      -- An empty text with a quote behind it.
      obtain rfl := (List.cons.inj heq).2
      cases hbasic with
      | close => exact absurd rfl (hne (Or.inl rfl) '"' rfl)
      | plain hquote => exact absurd rfl hquote
    · next heq => cases heq
    · next heq =>
      cases heq
      exact hread
    · next heq => cases heq
    · next hnot _ => exact absurd rfl (hnot cs)
  | @literal cs s _ hliteral =>
    have hread := literal_eq_some_iff.mpr ⟨s, hliteral, rfl⟩
    unfold text
    dsimp only
    split
    · next heq => cases heq
    · next heq =>
      obtain rfl := (List.cons.inj heq).2
      have hdrop := Run.dropWhile_eq hliteral (fun c hc => by cases hc; rfl)
      cases hdrop
      exact absurd rfl (hne (Or.inr rfl) '\'' rfl)
    · next heq => cases heq
    · next heq =>
      cases heq
      exact hread
    · next hnot => exact absurd rfl (hnot cs)
  | multiline hopened hmultiline =>
    exact hopened.multiline_eq (Or.inl rfl) hmultiline (hne (Or.inl rfl))
  | multilineLiteral hopened hmultiline =>
    exact hopened.multiline_eq (Or.inr rfl) hmultiline (hne (Or.inr rfl))

theorem Text.length_lt {t : String} (h : Text cs t rest) : rest.length < cs.length := by
  cases h with
  | basic hbasic => exact Nat.lt_succ_of_lt hbasic.length_lt
  | literal hliteral => exact Nat.lt_succ_of_lt (Literal.length_lt hliteral)
  | multiline hopened hmultiline =>
    have := hopened.length_le
    have := hmultiline.length_lt
    simp only [List.length_cons]
    omega
  | multilineLiteral hopened hmultiline =>
    have := hopened.length_le
    have := hmultiline.length_lt
    simp only [List.length_cons]
    omega

end

/-! ## Keys -/

section
variable {cs cs₁ rest : List Char}

lemma Key.length_lt {key : String} (h : Key cs key rest) : rest.length < cs.length := by
  cases h with
  | bare hrun hne =>
    have := hrun.length_eq
    have := List.length_pos_iff.mpr hne
    omega
  | basic hbasic => exact Nat.lt_succ_of_lt hbasic.length_lt
  | literal hliteral => exact Nat.lt_succ_of_lt (Literal.length_lt hliteral)

/-- What is read as a key is one. -/
lemma simpleKey_sound {key : String} (h : simpleKey cs = some (key, rest)) :
    Key cs key rest := by
  unfold simpleKey at h
  split at h
  · obtain ⟨s, hs, rfl⟩ := basic_sound h
    exact .basic hs
  · obtain ⟨s, hs, rfl⟩ := literal_eq_some_iff.mp h
    exact .literal hs
  · dsimp only at h
    split at h
    · cases h
    · next hne =>
      have hrun := run_takeWhile isBareKey cs
      cases h
      rw [hrun.drop_eq]
      exact .bare hrun (fun hnil => hne (List.isEmpty_iff.mpr hnil))

/-- A key is read up to its end, if no character of a bare key follows. -/
lemma Key.simpleKey_eq {key : String} (h : Key cs key rest)
    (hrest : ∀ c ∈ rest.head?, isBareKey c = false) :
    simpleKey cs = some (key, rest) := by
  cases h with
  | @bare cs body _ hrun hne =>
    -- A bare key does not begin with a quote.
    have hhead : ∀ {c : Char} {more : List Char}, cs = c :: more →
        isBareKey c = true := by
      intro c more hcs
      obtain ⟨c', body', rfl⟩ := List.exists_cons_of_ne_nil hne
      obtain ⟨hsplit, hbody⟩ := hrun
      rw [hcs] at hsplit
      exact (List.cons.inj hsplit).1 ▸ hbody c' List.mem_cons_self
    unfold simpleKey
    split
    · exact absurd (hhead rfl) (by decide)
    · exact absurd (hhead rfl) (by decide)
    · dsimp only
      rw [hrun.takeWhile_eq hrest, if_neg (fun hnil => hne (List.isEmpty_iff.mp hnil)),
        hrun.drop_eq]
  | @basic cs s _ hbasic =>
    exact hbasic.basic_eq
      (show cs.length < ('"' :: cs).length + 1 by rw [List.length_cons]; omega) []
  | @literal cs s _ hliteral => exact literal_eq_some_iff.mpr ⟨s, hliteral, rfl⟩

theorem Keys.length_lt {path : List String} {key : String} (h : Keys cs path key rest) :
    rest.length < cs.length := by
  induction h with
  | last hgap hkey hgap₁ =>
    have := hgap.length_le
    have := hkey.length_lt
    have := hgap₁.length_le
    omega
  | dot hgap hkey hgap₁ _ ih =>
    have := hgap.length_le
    have := hkey.length_lt
    have := hgap₁.length_le
    rw [List.length_cons] at this
    omega

/-- What is read as keys with dots between them are such keys. -/
theorem dottedKey_sound {fuel : Nat} {acc path : List String} {key : String}
    (h : dottedKey fuel acc cs = some (path, key, rest)) :
    ∃ more, Keys cs more key rest ∧ path = acc.reverse ++ more := by
  induction fuel generalizing acc cs with
  | zero => cases h
  | succ fuel ih =>
    unfold dottedKey at h
    obtain ⟨⟨first, cs₂⟩, hkey, h⟩ := Option.bind_eq_some_iff.mp h
    have hkey := simpleKey_sound hkey
    have hgap := gap_skipGap cs₂
    dsimp only at h
    split at h
    · next cs₃ hdot =>
      obtain ⟨more, hmore, rfl⟩ := ih h
      rw [hdot] at hgap
      exact ⟨first :: more, .dot (gap_skipGap cs) hkey hgap hmore,
        by rw [List.reverse_cons, List.append_assoc]; rfl⟩
    · cases h
      exact ⟨[], .last (gap_skipGap cs) hkey hgap, (List.append_nil _).symm⟩

/-- What a key starts with. -/
theorem Key.head {key : String} (h : Key cs key rest) :
    ∃ c more, cs = c :: more ∧ (isBareKey c = true ∨ c = '"' ∨ c = '\'') := by
  cases h with
  | bare hrun hne =>
    obtain ⟨rfl, hbody⟩ := hrun
    obtain ⟨c, body, rfl⟩ := List.exists_cons_of_ne_nil hne
    exact ⟨c, _, rfl, Or.inl (hbody c List.mem_cons_self)⟩
  | basic => exact ⟨_, _, rfl, Or.inr (Or.inl rfl)⟩
  | literal => exact ⟨_, _, rfl, Or.inr (Or.inr rfl)⟩

lemma isBareKey_of_isGap {c : Char} (h : isGap c = true) : isBareKey c = false := by
  rw [isGap, Bool.or_eq_true, beq_iff_eq, beq_iff_eq] at h
  rcases h with rfl | rfl <;> rfl

/-- Behind a key and blanks stands no further part of the key, if none stands behind
the blanks. -/
lemma Gap.head_not_bareKey (h : Gap cs rest)
    (hrest : ∀ c ∈ rest.head?, isBareKey c = false) :
    ∀ c ∈ cs.head?, isBareKey c = false := by
  obtain ⟨body, rfl, hbody⟩ := h
  cases body with
  | nil => exact hrest
  | cons c body =>
    intro c' hc'
    cases hc'
    exact isBareKey_of_isGap (hbody c List.mem_cons_self)

/-- A key does not begin with a blank. -/
theorem Key.head_not_gap {key : String} (h : Key cs key rest) :
    ∀ c ∈ cs.head?, isGap c = false := by
  obtain ⟨c, more, rfl, hc⟩ := h.head
  intro c' hc'
  cases hc'
  rcases hc with hbare | rfl | rfl
  · refine Bool.eq_false_iff.mpr fun hgap => ?_
    rw [isBareKey_of_isGap hgap] at hbare
    cases hbare
  · rfl
  · rfl

/-- What may stand behind a dotted key. -/
def EndsKey (rest : List Char) : Prop :=
  ∃ c more, rest = c :: more ∧ isBareKey c = false ∧ isGap c = false ∧ c ≠ '.'

/-- Keys with dots between them are read up to their end. -/
theorem Keys.dottedKey_eq {path : List String} {key : String}
    (h : Keys cs path key rest) (hrest : EndsKey rest) {fuel : Nat}
    (hfuel : cs.length < fuel) (acc : List String) :
    dottedKey fuel acc cs = some (acc.reverse ++ path, key, rest) := by
  induction h generalizing fuel acc with
  | @last cs cs₁ cs₂ key rest hgap hkey hgap₁ =>
    obtain ⟨fuel, rfl⟩ := Nat.exists_eq_succ_of_ne_zero (Nat.ne_zero_of_lt hfuel)
    obtain ⟨c, more, rfl, hbare, hnotgap, hdot⟩ := hrest
    have hread :=
      hkey.simpleKey_eq (hgap₁.head_not_bareKey fun c' hc' => by cases hc'; exact hbare)
    unfold dottedKey
    rw [hgap.skipGap_eq, skipGap_eq_self hkey.head_not_gap, hread, Option.bind_eq_bind,
      Option.bind_some]
    dsimp only
    rw [hgap₁.skipGap_eq, skipGap_eq_self fun c' hc' => by cases hc'; exact hnotgap,
      List.append_nil]
    split
    · next heq => exact absurd (List.cons.inj heq).1 hdot
    · rfl
  | @dot cs cs₁ cs₂ cs₃ first path key rest hgap hkey hgap₁ _ ih =>
    obtain ⟨fuel, rfl⟩ := Nat.exists_eq_succ_of_ne_zero (Nat.ne_zero_of_lt hfuel)
    have hread :=
      hkey.simpleKey_eq (hgap₁.head_not_bareKey fun c' hc' => by cases hc'; rfl)
    have hlength : cs₃.length < fuel := by
      have := hgap.length_le
      have := hkey.length_lt
      have := hgap₁.length_le
      rw [List.length_cons] at this
      omega
    unfold dottedKey
    rw [hgap.skipGap_eq, skipGap_eq_self hkey.head_not_gap, hread, Option.bind_eq_bind,
      Option.bind_some]
    dsimp only
    rw [hgap₁.skipGap_eq, skipGap_eq_self fun c' hc' => by cases hc'; rfl]
    show dottedKey fuel (first :: acc) cs₃ = _
    rw [ih hrest hlength, List.reverse_cons, List.append_assoc]
    rfl

end

end Workplan.Toml.Grammar
