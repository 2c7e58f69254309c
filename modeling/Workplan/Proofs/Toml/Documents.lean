import Mathlib.Tactic.Lemma
import Workplan.Proofs.Toml.Values

/-!
# Documents

The reader of documents accepts exactly what the grammar has as documents, with the
entries that the statements add up to (`parse?_eq_some_iff`).
-/

namespace Workplan.Toml

namespace Grammar

open Reader

section
variable {cs rest : List Char} {current : List String} {es : Entries}

/-! ## Statements -/

lemma header_false (es : Entries) (cs : List Char) :
    header false es cs = (dottedKey (cs.length + 1) [] cs).bind fun x =>
      (sign ']' x.2.2).bind fun rest =>
      (es.openTable x.1 x.2.1).bind fun es => some (x.1 ++ [x.2.1], es, rest) := rfl

lemma header_true (es : Entries) (cs : List Char) :
    header true es cs = (dottedKey (cs.length + 1) [] cs).bind fun x =>
      (sign ']' x.2.2).bind fun rest =>
      (sign ']' rest).bind fun rest => (es.openFurther x.1 x.2.1).bind fun es =>
        some (x.1 ++ [x.2.1], es, rest) := rfl

/-- What is read as a statement is one, and the entries change as it says. -/
lemma statement_sound {current' : List String} {es' : Entries}
    (h : statement current es cs = some (current', es', rest)) :
    ∃ s, Stated cs s rest ∧ s.apply current es = some (current', es') := by
  unfold statement at h
  split at h
  · rw [header_true] at h
    obtain ⟨⟨path, key, cs₁⟩, hkeys, h⟩ := Option.bind_eq_some_iff.mp h
    obtain ⟨cs₂, hsign, h⟩ := Option.bind_eq_some_iff.mp h
    obtain ⟨cs₃, hsign₁, h⟩ := Option.bind_eq_some_iff.mp h
    obtain ⟨es₁, hopen, h⟩ := Option.bind_eq_some_iff.mp h
    cases h
    obtain ⟨path, hkeys, rfl⟩ := dottedKey_sound hkeys
    obtain rfl := sign_eq_some_iff.mp hsign
    obtain rfl := sign_eq_some_iff.mp hsign₁
    refine ⟨.further path key, .further hkeys, ?_⟩
    rw [Statement.apply]
    exact congrArg (Option.map _) hopen
  · rw [header_false] at h
    obtain ⟨⟨path, key, cs₁⟩, hkeys, h⟩ := Option.bind_eq_some_iff.mp h
    obtain ⟨cs₂, hsign, h⟩ := Option.bind_eq_some_iff.mp h
    obtain ⟨es₁, hopen, h⟩ := Option.bind_eq_some_iff.mp h
    cases h
    obtain ⟨path, hkeys, rfl⟩ := dottedKey_sound hkeys
    obtain rfl := sign_eq_some_iff.mp hsign
    refine ⟨.table path key, .table hkeys, ?_⟩
    rw [Statement.apply]
    exact congrArg (Option.map _) hopen
  · obtain ⟨⟨path, key, cs₁⟩, hkeys, h⟩ := Option.bind_eq_some_iff.mp h
    obtain ⟨cs₂, hsign, h⟩ := Option.bind_eq_some_iff.mp h
    obtain ⟨⟨item, cs₃⟩, hvalue, h⟩ := Option.bind_eq_some_iff.mp h
    obtain ⟨es₁, hdefine, h⟩ := Option.bind_eq_some_iff.mp h
    cases h
    obtain ⟨path, hkeys, rfl⟩ := dottedKey_sound hkeys
    obtain rfl := sign_eq_some_iff.mp hsign
    refine ⟨.define path key item, .define hkeys (gap_skipGap cs₂) (value_sound hvalue),
      ?_⟩
    rw [Statement.apply]
    exact congrArg (Option.map _) hdefine

lemma isPrintable_of_isBareKey {c : Char} (h : isBareKey c = true) :
    isPrintable c = true := by
  have hbounds : 0x20 ≤ c.toNat ∧ c.toNat ≤ 0x7E := by
    rw [isBareKey, Bool.or_eq_true, Bool.or_eq_true, beq_iff_eq, beq_iff_eq] at h
    rcases h with (halnum | rfl) | rfl
    · unfold Char.isAlphanum Char.isAlpha Char.isUpper Char.isLower
        Char.isDigit at halnum
      simp only [Bool.or_eq_true, Bool.and_eq_true, decide_eq_true_eq, ge_iff_le,
        UInt32.le_iff_toNat_le] at halnum
      rcases halnum with (⟨hlow, hhigh⟩ | ⟨hlow, hhigh⟩) | ⟨hlow, hhigh⟩
      all_goals
        exact ⟨Nat.le_trans (by decide) hlow, Nat.le_trans hhigh (by decide)⟩
    · decide
    · decide
  rw [isPrintable, Bool.or_eq_true, Bool.or_eq_true, Bool.and_eq_true,
    decide_eq_true_iff, decide_eq_true_iff]
  exact Or.inl (Or.inr hbounds)

lemma isPrintable_of_isGap {c : Char} (h : isGap c = true) : isPrintable c = true := by
  rw [isGap, Bool.or_eq_true, beq_iff_eq, beq_iff_eq] at h
  rcases h with rfl | rfl <;> decide

/-- The characters that dotted keys start with, blanks included. -/
def startsKey (c : Char) : Bool :=
  isBareKey c || isGap c || c == '"' || c == '\''

lemma isPrintable_of_startsKey {c : Char} (h : startsKey c = true) :
    isPrintable c = true := by
  rw [startsKey, Bool.or_eq_true, Bool.or_eq_true, Bool.or_eq_true,
    beq_iff_eq, beq_iff_eq] at h
  rcases h with ((hbare | hgap) | rfl) | rfl
  · exact isPrintable_of_isBareKey hbare
  · exact isPrintable_of_isGap hgap
  · decide
  · decide

/-- What starts a key is none of the signs that do not. -/
lemma ne_of_startsKey {c c' : Char} (h : startsKey c = true)
    (h' : startsKey c' = false) : c ≠ c' := by
  rintro rfl
  rw [h] at h'
  cases h'

/-- Keys begin with a character of a key, a blank or a quote. -/
lemma Keys.head {path : List String} {key : String} (h : Keys cs path key rest) :
    ∃ c more, cs = c :: more ∧ startsKey c = true := by
  have hhead : ∀ {cs₁ rest : List Char} {key : String}, Gap cs cs₁ → Key cs₁ key rest →
      ∃ c more, cs = c :: more ∧ startsKey c = true := by
    rintro cs₁ rest key ⟨body, rfl, hbody⟩ hkey
    cases body with
    | nil =>
      obtain ⟨c, more, rfl, hbare | rfl | rfl⟩ := hkey.head
      · exact ⟨c, more, rfl, by rw [startsKey, hbare]; rfl⟩
      · exact ⟨_, more, rfl, by decide⟩
      · exact ⟨_, more, rfl, by decide⟩
    | cons c body =>
      exact ⟨c, _, rfl,
        by rw [startsKey, hbody c List.mem_cons_self, Bool.or_true]; rfl⟩
  cases h with
  | last hgap hkey => exact hhead hgap hkey
  | dot hgap hkey => exact hhead hgap hkey

/-- Every statement of the grammar is read up to its end, if it can be applied. -/
lemma Stated.statement_eq {s : Statement} (h : Stated cs s rest) (hrest : Ends rest)
    {current' : List String} {es' : Entries}
    (happly : s.apply current es = some (current', es')) :
    statement current es cs = some (current', es', rest) := by
  cases h with
  | @table cs path key _ hkeys =>
    obtain ⟨es₁, hopen, heq⟩ := Option.map_eq_some_iff.mp happly
    cases heq
    obtain ⟨c, more, rfl, hc⟩ := hkeys.head
    have hc := ne_of_startsKey hc (show startsKey '[' = false by decide)
    unfold statement
    split
    · next heq => exact absurd (List.cons.inj (List.cons.inj heq).2).1 hc
    · next heq =>
      cases heq
      rw [header_false, hkeys.dottedKey_eq (endsKey_cons (by decide) _)
        (Nat.lt_succ_self _)]
      simp only [Option.bind_some, sign, if_true, List.reverse_nil,
        List.nil_append, hopen]
    · next hnot => exact absurd rfl (hnot _)
  | @further cs path key _ hkeys =>
    obtain ⟨es₁, hopen, heq⟩ := Option.map_eq_some_iff.mp happly
    cases heq
    show header true es cs = _
    rw [header_true, hkeys.dottedKey_eq (endsKey_cons (by decide) _)
      (Nat.lt_succ_self _)]
    simp only [Option.bind_some, sign, if_true, List.reverse_nil,
      List.nil_append, hopen]
  | @define _ path key cs₁ cs₂ item _ hkeys hgap hvalue =>
    obtain ⟨es₁, hdefine, heq⟩ := Option.map_eq_some_iff.mp happly
    cases heq
    obtain ⟨c, more, rfl, hc⟩ := hkeys.head
    have hc := ne_of_startsKey hc (show startsKey '[' = false by decide)
    have hread :=
      hvalue.value_eq hrest (show cs₂.length ≤ cs₁.length + 2 + rest.length by
      have := hgap.length_le
      omega)
    unfold statement
    split
    · next heq => exact absurd (List.cons.inj heq).1 hc
    · next heq => exact absurd (List.cons.inj heq).1 hc
    · rw [hkeys.dottedKey_eq (endsKey_cons (by decide) _) (Nat.lt_succ_self _)]
      show ((value (cs₁.length + 2) (skipGap cs₁)).bind fun x =>
        (es.defineUnder current path key x.1).bind fun es =>
          some (current, es, x.2)) = _
      rw [hgap.skipGap_eq, hvalue.solid.skipGap_eq, hread, Option.bind_some, hdefine]
      rfl

/-- A statement begins with a bracket or with what starts a key. -/
lemma Stated.head {s : Statement} (h : Stated cs s rest) :
    ∃ c more, cs = c :: more ∧ (c = '[' ∨ startsKey c = true) := by
  cases h with
  | table => exact ⟨_, _, rfl, Or.inl rfl⟩
  | further => exact ⟨_, _, rfl, Or.inl rfl⟩
  | define hkeys =>
    obtain ⟨c, more, rfl, hc⟩ := hkeys.head
    exact ⟨c, more, rfl, Or.inr hc⟩

/-- A statement starts behind blanks as well as in front of them. -/
lemma Stated.skipGap {s : Statement} (h : Stated cs s rest) :
    Stated (skipGap cs) s rest ∧ Solid (Reader.skipGap cs) := by
  cases h with
  | @table cs _ _ _ hkeys => exact ⟨.table hkeys, solid_cons (by decide) cs⟩
  | @further cs _ _ _ hkeys =>
    exact ⟨.further hkeys, solid_cons (by decide) ('[' :: cs)⟩
  | define hkeys hgap hvalue =>
    refine ⟨.define hkeys.skipGap.1 hgap hvalue, ?_⟩
    obtain ⟨c, more, hcs, hc⟩ := hkeys.skipGap.1.head
    exact ⟨c, more, hcs, head_skipGap cs c (by rw [hcs]; rfl),
      ne_of_startsKey hc (by decide), isPrintable_of_startsKey hc⟩

lemma Stated.length_lt {s : Statement} (h : Stated cs s rest) :
    rest.length < cs.length := by
  cases h with
  | table hkeys =>
    have := hkeys.length_lt
    simp only [List.length_cons] at *
    omega
  | further hkeys =>
    have := hkeys.length_lt
    simp only [List.length_cons] at *
    omega
  | define hkeys hgap hvalue =>
    have := hkeys.length_lt
    have := hgap.length_le
    have := hvalue.length_lt
    rw [List.length_cons] at *
    omega

/-! ## Lines -/

lemma Line.gap {cs₁ : List Char} {ss : List Statement} (hgap : Gap cs cs₁)
    (h : Line cs₁ ss rest) : Line cs ss rest := by
  cases h with
  | blank hgap₁ hremark => exact .blank (hgap.trans hgap₁) hremark
  | statement hgap₁ hstated hgap₂ hremark =>
    exact .statement (hgap.trans hgap₁) hstated hgap₂ hremark

lemma Lines.gap {cs₁ : List Char} {ss : List Statement} (hgap : Gap cs cs₁)
    (h : Lines cs₁ ss) : Lines cs ss := by
  cases h with
  | last hline => exact .last (hline.gap hgap)
  | next hline hbreak hlines => exact .next (hline.gap hgap) hbreak hlines

/-- Blank lines say nothing. -/
lemma Blank.lines {cs₁ : List Char} {ss : List Statement} (hblank : Blank cs cs₁)
    (h : Lines cs₁ ss) : Lines cs ss := by
  induction hblank with
  | gap hgap => exact h.gap hgap
  | line hgap hremark hbreak _ ih => exact .next (.blank hgap hremark) hbreak (ih h)

/-- What is read as lines are lines, and the entries are what their statements say. -/
lemma lines_sound {fuel : Nat} {es' : Entries}
    (h : lines fuel current es cs = some es') :
    ∃ ss, Lines cs ss ∧ Statement.applyAll current es ss = some es' := by
  induction fuel generalizing current es cs with
  | zero => cases h
  | succ fuel ih =>
    obtain ⟨cs₁, hblank, hremark, hspec⟩ := blank_skipLines (Nat.lt_succ_self cs.length)
    unfold lines at h
    split at h
    · next heq =>
      cases h
      rw [heq] at hremark
      exact ⟨[], hblank.lines (.last (.blank (.refl cs₁) hremark)), rfl⟩
    · obtain ⟨⟨current', es₁, cs₂⟩, hstatement, h⟩ := Option.bind_eq_some_iff.mp h
      obtain ⟨cs₃, hend, h⟩ := Option.bind_eq_some_iff.mp h
      obtain ⟨s, hstated, happly⟩ := statement_sound hstatement
      -- A statement starts with something printable, so no comment has been dropped in
      -- front of it.
      have hcs₁ : skipLines (cs.length + 1) cs = cs₁ := by
        obtain ⟨c, more, heq, hc⟩ := hstated.head
        have hprintable : isPrintable c = true := by
          rcases hc with rfl | hc
          · decide
          · exact isPrintable_of_startsKey hc
        refine hspec.resolve_right fun hnot => ?_
        rw [heq] at hnot
        rw [hnot c rfl] at hprintable
        cases hprintable
      rw [← hcs₁] at hblank
      have happly : ∀ ss, Statement.applyAll current es (s :: ss) =
          Statement.applyAll current' es₁ ss := fun ss => by
        rw [Statement.applyAll, happly]
        rfl
      obtain ⟨cs₄, cs₅, hgap, hremark₁, ⟨rfl, rfl⟩ | hbreak⟩ :=
        lineEnd_eq_some_iff.mp hend
      · -- The last line.
        refine ⟨[s], hblank.lines (.last (.statement (.refl _) hstated hgap hremark₁)),
          ?_⟩
        rw [happly]
        cases fuel with
        | zero => cases h
        | succ fuel => exact h
      · obtain ⟨ss, hlines, happlyAll⟩ := ih h
        refine ⟨s :: ss,
          hblank.lines
          (.next (.statement (.refl _) hstated hgap hremark₁) hbreak hlines), ?_⟩
        rw [happly, happlyAll]

/-- Fuel beyond the number of characters makes no difference. -/
lemma skipLines_fuel {fuel fuel' : Nat} (hfuel : cs.length < fuel)
    (hfuel' : cs.length < fuel') :
    skipLines fuel cs = skipLines fuel' cs := by
  induction fuel generalizing cs fuel' with
  | zero => exact absurd hfuel (Nat.not_lt_zero _)
  | succ fuel ih =>
    obtain ⟨fuel', rfl⟩ := Nat.exists_eq_succ_of_ne_zero (Nat.ne_zero_of_lt hfuel')
    rw [skipLines, skipLines]
    cases hbreak : lineBreak? (skipComment (skipGap cs)) with
    | none => rfl
    | some rest =>
      have := length_lt_of_line (gap_skipGap cs) (remark_skipComment _)
        (lineBreak?_eq_some_iff.mp hbreak)
      exact ih (by omega) (by omega)

/-- A line that says nothing is dropped. -/
lemma skipLines_blank {cs₁ cs₂ : List Char} (hgap : Gap cs cs₁)
    (hremark : Remark cs₁ cs₂) (hbreak : Break cs₂ rest) :
    skipLines (cs.length + 1) cs = skipLines (rest.length + 1) rest := by
  rw [skipLines, skipComment_skipGap hgap hremark hbreak.head,
    lineBreak?_eq_some_iff.mpr hbreak]
  exact skipLines_fuel (length_lt_of_line hgap hremark hbreak) (Nat.lt_succ_self _)

/-- The lines of a document depend on what is left without blank lines. -/
lemma lines_congr {cs' : List Char}
    (h : skipLines (cs.length + 1) cs = skipLines (cs'.length + 1) cs') (fuel : Nat) :
    lines fuel current es cs = lines fuel current es cs' := by
  cases fuel with
  | zero => rfl
  | succ fuel => rw [lines, lines, h]

/-- One statement with its line. -/
lemma lines_statement {cs₁ cs₂ : List Char} {s : Statement} {current' : List String}
    {es₁ : Entries} (hgap : Gap cs cs₁) (hstated : Stated cs₁ s cs₂)
    (hend : LineEnd cs₂ rest) (happly : s.apply current es = some (current', es₁))
    (fuel : Nat) : lines (fuel + 1) current es cs = lines fuel current' es₁ rest := by
  obtain ⟨hstated', c, more, hcs, hsolid⟩ := hstated.skipGap
  have hskip : skipLines (cs.length + 1) cs = skipGap cs₁ :=
    (Blank.gap (hgap.trans (gap_skipGap cs₁))).skipLines_eq ⟨c, more, hcs, hsolid⟩
      (Nat.lt_succ_self _)
  have hread := hstated'.statement_eq hend.ends happly
  rw [lines, hskip]
  split
  · next heq => rw [heq] at hcs; cases hcs
  · rw [hread]
    show (lineEnd cs₂).bind _ = _
    rw [lineEnd_eq_some_iff.mpr hend]
    rfl

/-- A line with a statement is read if what stands behind its end is read. -/
lemma Stated.lines_eq {cs₁ cs₂ : List Char} {s : Statement} {ss : List Statement}
    {fuel : Nat} {es' : Entries} (hstated : Stated cs₁ s cs₂) (hgap : Gap cs cs₁)
    (hend : LineEnd cs₂ rest) (hfuel : cs.length < fuel)
    (happly : Statement.applyAll current es (s :: ss) = some es')
    (hrest : ∀ (current' : List String) (es₁ : Entries) (fuel' : Nat),
      rest.length < fuel' →
      Statement.applyAll current' es₁ ss = some es' →
      lines fuel' current' es₁ rest = some es') :
    lines fuel current es cs = some es' := by
  obtain ⟨⟨current', es₁⟩, happly₁, happly⟩ := Option.bind_eq_some_iff.mp happly
  obtain ⟨fuel, rfl⟩ := Nat.exists_eq_succ_of_ne_zero (Nat.ne_zero_of_lt hfuel)
  rw [lines_statement hgap hstated hend happly₁]
  refine hrest current' es₁ fuel ?_ happly
  have := hgap.length_le
  have := hstated.length_lt
  have := hend.length_le
  omega

/-- All lines of the grammar are read, if their statements can be applied one after
the other. -/
lemma Lines.lines_eq {ss : List Statement} (h : Lines cs ss) {fuel : Nat}
    (hfuel : cs.length < fuel) {es' : Entries}
    (happly : Statement.applyAll current es ss = some es') :
    lines fuel current es cs = some es' := by
  induction h generalizing current es fuel with
  | last hline =>
    cases hline with
    | blank hgap hremark =>
      cases happly
      obtain ⟨fuel, rfl⟩ := Nat.exists_eq_succ_of_ne_zero (Nat.ne_zero_of_lt hfuel)
      rw [lines, skipLines, skipComment_skipGap hgap hremark fun c hc => by cases hc]
      rfl
    | statement hgap hstated hgap₁ hremark =>
      refine hstated.lines_eq hgap ⟨_, _, hgap₁, hremark,
        Or.inl ⟨rfl, rfl⟩⟩ hfuel happly fun _ _ fuel' hfuel' h => ?_
      obtain ⟨fuel', rfl⟩ := Nat.exists_eq_succ_of_ne_zero (Nat.ne_zero_of_lt hfuel')
      exact h
  | next hline hbreak _ ih =>
    cases hline with
    | blank hgap hremark =>
      rw [lines_congr (skipLines_blank hgap hremark hbreak)]
      exact ih (Nat.lt_trans (length_lt_of_line hgap hremark hbreak) hfuel) happly
    | statement hgap hstated hgap₁ hremark =>
      exact hstated.lines_eq hgap ⟨_, _, hgap₁, hremark,
        Or.inr hbreak⟩ hfuel happly fun _ _ _ hfuel' h => ih hfuel' h

end

end Grammar

/-- The reader accepts the documents of the grammar, and reads the entries of each. -/
theorem parse?_eq_some_iff {text : String} {es : Entries} :
    parse? text = some es ↔ IsDocument text es := by
  unfold parse?
  constructor
  · intro h
    dsimp only at h
    split at h
    · next rest heq =>
      obtain ⟨ss, hlines, happly⟩ := Grammar.lines_sound h
      exact ⟨rest, ss, Or.inr heq, hlines, happly⟩
    · obtain ⟨ss, hlines, happly⟩ := Grammar.lines_sound h
      exact ⟨text.toList, ss, Or.inl rfl, hlines, happly⟩
  · rintro ⟨cs, ss, htext | htext, hlines, happly⟩
    · have hread := hlines.lines_eq (show cs.length < cs.length + 2 by omega) happly
      rw [htext]
      split
      · next _ more =>
        -- No statement starts with a byte order mark, so it is not part of a document.
        have hsolid : Grammar.Solid ('\ufeff' :: more) :=
          Grammar.solid_cons (by decide) more
        rw [Reader.lines, (Grammar.Blank.gap (.refl _)).skipLines_eq hsolid
          (Nat.lt_succ_self _)] at hread
        obtain ⟨⟨current, es₁, rest⟩, hstatement, -⟩ := Option.bind_eq_some_iff.mp hread
        obtain ⟨s, hstated, -⟩ := Grammar.statement_sound hstatement
        obtain ⟨c, more', heq, hc⟩ := hstated.head
        rw [← (List.cons.inj heq).1] at hc
        exact absurd hc (by decide)
      · exact hread
    · rw [htext]
      exact hlines.lines_eq (show cs.length < cs.length + 2 by omega) happly

end Workplan.Toml
