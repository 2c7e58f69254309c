import Mathlib.Tactic.Lemma
import Workplan.Proofs.Text.Digits
import Workplan.Proofs.Toml.Moments

/-!
# Values

Values are read as the grammar writes them (`value_sound`, `Value.value_eq`), with
arrays and tables in braces inside one another to any depth.  Both directions go by
induction on the fuel of the reader.  A value takes no more fuel than it has characters:
a level of nesting takes two, and it has two brackets.
-/

namespace Workplan.Toml.Grammar

open Reader

/-! ## First characters -/

/-- The characters that dates, times and numbers start with. -/
def startsScalar (c : Char) : Bool :=
  c.isDigit || c == '+' || c == '-' || c == 'i' || c == 'n'

/-- The characters that values start with. -/
def startsValue (c : Char) : Bool :=
  startsScalar c || c == 't' || c == 'f' || c == '"' || c == '\'' ||
    c == '[' || c == '\x7b'

section
variable {cs rest : List Char} {item : Item}

/-- A number begins with a digit, a sign, or the first letter of `inf` or `nan`. -/
lemma Number.head (h : Number cs item rest) :
    ∃ c more, cs = c :: more ∧ startsScalar c = true := by
  -- What stands behind a sign could stand in front as well.
  have hsigned : ∀ {negative : Bool} {cs₁ : List Char}, Sign cs negative cs₁ →
      (∃ c more, cs₁ = c :: more ∧ startsScalar c = true) → ∃ c more, cs = c :: more ∧
        startsScalar c = true := by
    intro negative cs₁ hsign hhead
    cases hsign with
    | none => exact hhead
    | plus => exact ⟨_, _, rfl, rfl⟩
    | minus => exact ⟨_, _, rfl, rfl⟩
  have hwhole : ∀ {cs ds rest : List Char}, Whole cs ds rest →
      ∃ c more, cs = c :: more ∧ startsScalar c = true := by
    intro cs ds rest h
    obtain ⟨c, more, rfl, hc⟩ := h.1.head
    exact ⟨c, more, rfl, by rw [startsScalar, hc]; rfl⟩
  cases h with
  | decimal hsign h => exact hsigned hsign (hwhole h)
  | based => exact ⟨_, _, rfl, rfl⟩
  | fraction hsign h => exact hsigned hsign (hwhole h)
  | exponent hsign h => exact hsigned hsign (hwhole h)
  | fractionExponent hsign h => exact hsigned hsign (hwhole h)
  | infinite hsign => exact hsigned hsign ⟨_, _, rfl, rfl⟩
  | nan hsign => exact hsigned hsign ⟨_, _, rfl, rfl⟩

lemma Moment.head (h : Moment cs rest) :
    ∃ c more, cs = c :: more ∧ startsScalar c = true := by
  have hstarts := h.startsMoment_eq
  cases cs with
  | nil => cases hstarts
  | cons c more =>
    refine ⟨c, more, rfl, ?_⟩
    cases hc : c.isDigit with
    | true => rw [startsScalar, hc]; rfl
    | false =>
      rw [startsMoment_cons hc] at hstarts
      cases hstarts

lemma Text.head {s : String} (h : Text cs s rest) :
    ∃ c more, cs = c :: more ∧ IsQuote c := by
  cases h with
  | basic => exact ⟨_, _, rfl, Or.inl rfl⟩
  | literal => exact ⟨_, _, rfl, Or.inr rfl⟩
  | multiline => exact ⟨_, _, rfl, Or.inl rfl⟩
  | multilineLiteral => exact ⟨_, _, rfl, Or.inr rfl⟩

lemma startsValue_of_scalar {c : Char} (h : startsScalar c = true) :
    startsValue c = true := by
  rw [startsValue, h]
  rfl

/-- By its first character a value is known to be one. -/
lemma Value.head (h : Value cs item rest) :
    ∃ c more, cs = c :: more ∧ startsValue c = true := by
  cases h with
  | text h =>
    obtain ⟨c, more, rfl, rfl | rfl⟩ := h.head
    · exact ⟨_, _, rfl, by decide⟩
    · exact ⟨_, _, rfl, by decide⟩
  | number h =>
    obtain ⟨c, more, rfl, hc⟩ := h.head
    exact ⟨c, more, rfl, startsValue_of_scalar hc⟩
  | moment h =>
    obtain ⟨c, more, heq, hc⟩ := h.head
    exact ⟨c, more, heq, startsValue_of_scalar hc⟩
  | _ => exact ⟨_, _, rfl, by decide⟩

/-- The marks and letters that values start with. -/
def valueMarks : List Char :=
  ['+', '-', 'i', 'n', 't', 'f', '"', '\'', '[', '\x7b']

lemma startsValue_iff {c : Char} :
    startsValue c = true ↔ c.isDigit = true ∨ c ∈ valueMarks := by
  simp only [startsValue, startsScalar, valueMarks, Bool.or_eq_true, beq_iff_eq,
    or_assoc, List.mem_cons, List.not_mem_nil, or_false]

lemma isPrintable_of_isDigit {c : Char} (h : c.isDigit = true) :
    isPrintable c = true := by
  obtain ⟨hlow, hhigh⟩ := Workplan.Text.isDigit_iff.mp h
  rw [isPrintable, Bool.or_eq_true, Bool.or_eq_true, Bool.and_eq_true,
    decide_eq_true_iff, decide_eq_true_iff]
  exact Or.inl (Or.inr ⟨by omega, by omega⟩)

lemma solid_of_startsValue {c : Char} (h : startsValue c = true) (more : List Char) :
    Solid (c :: more) := by
  refine ⟨c, more, rfl, ?_⟩
  rcases startsValue_iff.mp h with hdigit | hmark
  · refine ⟨Bool.eq_false_iff.mpr fun hgap => ?_, ?_, isPrintable_of_isDigit hdigit⟩
    · rw [isGap, Bool.or_eq_true, beq_iff_eq, beq_iff_eq] at hgap
      rcases hgap with rfl | rfl <;> cases hdigit
    · rintro rfl
      cases hdigit
  · have hmarks : ∀ c ∈ valueMarks, isGap c = false ∧ c ≠ '#' ∧ isPrintable c = true := by
      decide
    exact hmarks c hmark

theorem Value.solid (h : Value cs item rest) : Solid cs := by
  obtain ⟨c, more, rfl, hc⟩ := h.head
  exact solid_of_startsValue hc more

/-! ## Lengths -/

mutual

/-- A value is not empty, so that every reader of values leaves less than it was
given. -/
theorem Value.length_lt {cs rest : List Char} {item : Item} :
    Value cs item rest → rest.length < cs.length
  | .isTrue => by simp only [List.length_cons]; omega
  | .isFalse => by simp only [List.length_cons]; omega
  | .text h => h.length_lt
  | .number h => h.length_lt
  | .moment h => h.length_lt
  | .array h => by
    have := h.length_le
    simp only [List.length_cons] at *
    omega
  | .empty h => by
    have := h.length_le
    simp only [List.length_cons] at *
    omega
  | .inline h => by
    have := h.length_lt
    simp only [List.length_cons] at *
    omega

/-- The items of an array may be none. -/
theorem Items.length_le {cs rest : List Char} {items : List Item} :
    Items cs items rest → rest.length ≤ cs.length
  | .none h => h.length_le
  | .last h h₁ h₂ => by
    have := h.length_le
    have := h₁.length_lt
    have := h₂.length_le
    omega
  | .next h h₁ h₂ h₃ => by
    have := h.length_le
    have := h₁.length_lt
    have := h₂.length_le
    have := h₃.length_le
    simp only [List.length_cons] at *
    omega

/-- The fields of a table in braces are at least one. -/
theorem Fields.length_lt {cs rest : List Char} {es es' : Entries} :
    Fields es cs es' rest → rest.length < cs.length
  | .last h h₁ h₂ _ h₃ => by
    have := h.length_lt
    have := h₁.length_le
    have := h₂.length_lt
    have := h₃.length_le
    simp only [List.length_cons] at *
    omega
  | .next h h₁ h₂ _ h₃ h₄ => by
    have := h.length_lt
    have := h₁.length_le
    have := h₂.length_lt
    have := h₃.length_le
    have := h₄.length_lt
    simp only [List.length_cons] at *
    omega

end

/-! ## What is read is written -/

theorem solid_cons {c : Char} (hc : isGap c = false ∧ c ≠ '#' ∧ isPrintable c = true)
    (more : List Char) :
    Solid (c :: more) :=
  ⟨c, more, rfl, hc⟩

/-- A gap may stand in front of keys. -/
lemma Keys.gap {path : List String} {key : String} {cs₁ : List Char} (hgap : Gap cs cs₁)
    (h : Keys cs₁ path key rest) :
    Keys cs path key rest := by
  cases h with
  | last hgap₁ hkey hgap₂ => exact .last (hgap.trans hgap₁) hkey hgap₂
  | dot hgap₁ hkey hgap₂ hmore => exact .dot (hgap.trans hgap₁) hkey hgap₂ hmore

lemma Fields.gap {es es' : Entries} {cs₁ : List Char} (hgap : Gap cs cs₁)
    (h : Fields es cs₁ es' rest) :
    Fields es cs es' rest := by
  cases h with
  | last hkeys hgap₁ hvalue hdefine hgap₂ =>
    exact .last (hkeys.gap hgap) hgap₁ hvalue hdefine hgap₂
  | next hkeys hgap₁ hvalue hdefine hgap₂ hmore =>
    exact .next (hkeys.gap hgap) hgap₁ hvalue hdefine hgap₂ hmore

mutual

/-- What is read as a value is one. -/
theorem value_sound {cs rest : List Char} {item : Item} :
    ∀ {fuel : Nat}, value fuel cs = some (item, rest) → Value cs item rest
  | 0, h => by cases h
  | fuel + 1, h => by
    unfold value at h
    split at h
    · cases h; exact .isTrue
    · cases h; exact .isFalse
    · obtain ⟨items, rfl, hitems⟩ := array_sound h
      exact .array hitems
    · next cs =>
      have hgap := gap_skipGap cs
      split at h
      · next heq =>
        cases h
        rw [heq] at hgap
        exact .empty hgap
      · obtain ⟨es, rfl, hfields⟩ := inlineTable_sound h
        exact .inline (hfields.gap hgap)
    · obtain ⟨⟨s, rest'⟩, htext, heq⟩ := Option.map_eq_some_iff.mp h
      cases heq
      exact .text (text_sound htext)
    · obtain ⟨⟨s, rest'⟩, htext, heq⟩ := Option.map_eq_some_iff.mp h
      cases heq
      exact .text (text_sound htext)
    -- Everything else begins with a digit, a sign or a letter of a special number.
    · split at h
      · obtain ⟨written, rfl, rfl, hmoment⟩ := moment_sound h
        exact .moment hmoment
      · exact .number (number_sound h)

/-- What is read up to a closing bracket are the items of an array. -/
theorem array_sound {cs rest : List Char} {item : Item} :
    ∀ {fuel : Nat} {acc : List Item}, array fuel acc cs = some (item, rest) →
      ∃ items, item = .list (acc.reverse ++ items) ∧ Items cs items (']' :: rest)
  | 0, acc, h => by cases h
  | fuel + 1, acc, h => by
    unfold array at h
    have hblank := blank_of_solid (Nat.lt_succ_self cs.length)
    split at h
    · next heq =>
      cases h
      rw [heq] at hblank
      exact ⟨[], by rw [List.append_nil], .none (hblank (solid_cons (by decide) _))⟩
    · obtain ⟨⟨item₁, cs₂⟩, hvalue, h⟩ := Option.bind_eq_some_iff.mp h
      have hvalue := value_sound hvalue
      have hblank := hblank hvalue.solid
      -- Blanks and comments on either side of an item end where something solid stands.
      have hblank₁ := blank_of_solid (Nat.lt_succ_self cs₂.length)
      dsimp only at h
      split at h
      · next heq =>
        obtain ⟨items, rfl, hitems⟩ := array_sound h
        rw [heq] at hblank₁
        refine ⟨item₁ :: items, by rw [List.reverse_cons, List.append_assoc]; rfl, ?_⟩
        exact .next hblank hvalue (hblank₁ (solid_cons (by decide) _)) hitems
      · next heq =>
        cases h
        rw [heq] at hblank₁
        exact ⟨[item₁], by rw [List.reverse_cons],
          .last hblank hvalue (hblank₁ (solid_cons (by decide) _))⟩
      · cases h

/-- What is read up to a closing brace are the fields of a table. -/
theorem inlineTable_sound {cs rest : List Char} {item : Item} :
    ∀ {fuel : Nat} {es : Entries}, inlineTable fuel es cs = some (item, rest) →
      ∃ es', item = .inline es' ∧ Fields es cs es' ('\x7d' :: rest)
  | 0, es, h => by cases h
  | fuel + 1, es, h => by
    unfold inlineTable at h
    obtain ⟨⟨path, key, cs₁⟩, hkeys, h⟩ := Option.bind_eq_some_iff.mp h
    obtain ⟨path, hkeys, rfl⟩ := dottedKey_sound hkeys
    dsimp only at h
    split at h
    · next cs₂ _ =>
      obtain ⟨⟨item₁, cs₃⟩, hvalue, h⟩ := Option.bind_eq_some_iff.mp h
      obtain ⟨es₁, hdefine, h⟩ := Option.bind_eq_some_iff.mp h
      have hvalue := value_sound hvalue
      have hgap := gap_skipGap cs₃
      dsimp only at h
      split at h
      · next heq =>
        obtain ⟨es', rfl, hfields⟩ := inlineTable_sound h
        rw [heq] at hgap
        exact ⟨es', rfl, .next hkeys (gap_skipGap cs₂) hvalue hdefine hgap hfields⟩
      · next heq =>
        cases h
        rw [heq] at hgap
        exact ⟨es₁, rfl, .last hkeys (gap_skipGap cs₂) hvalue hdefine hgap⟩
      · cases h
    · cases h

end

/-! ## What is written is read -/

theorem endsKey_cons {c : Char} (hc : isBareKey c = false ∧ isGap c = false ∧ c ≠ '.')
    (more : List Char) :
    EndsKey (c :: more) :=
  ⟨c, more, rfl, hc⟩

/-- What is blank may stand between a value and its end. -/
lemma Blank.ends (h : Blank cs rest)
    (hrest : ∀ c ∈ rest.head?, c ∈ ['#', '\n', '\r', ',', ']', '\x7d']) : Ends cs := by
  cases h with
  | gap hgap => exact ends_of_gap hgap hrest
  | line hgap hremark hbreak =>
    refine ends_of_gap hgap fun c hc => ?_
    cases hremark with
    | comment => cases hc; decide
    | none => cases hbreak <;> cases hc <;> decide

/-- The end of a line is an end of values. -/
theorem LineEnd.ends (h : LineEnd cs rest) : Ends cs := by
  obtain ⟨cs₁, cs₂, hgap, hremark, hend⟩ := h
  refine ends_of_gap hgap fun c hc => ?_
  cases hremark with
  | comment => cases hc; decide
  | none =>
    rcases hend with ⟨rfl, -⟩ | hbreak
    · cases hc
    · cases hbreak <;> cases hc <;> decide

/-- Dates, times and numbers are told apart by their first characters. -/
lemma value_of_scalar {c : Char} {more : List Char} (hc : startsScalar c = true)
    (fuel : Nat) :
    value (fuel + 1) (c :: more) =
      if startsMoment (c :: more) then moment (c :: more) else number (c :: more) := by
  -- No other value begins with such a character.
  have hne : ∀ {c' : Char} {cs : List Char}, startsScalar c' = false →
      c :: more ≠ c' :: cs := by
    intro c' cs hc' heq
    rw [(List.cons.inj heq).1, hc'] at hc
    cases hc
  unfold value
  split
  · next heq => exact absurd heq (hne (by decide))
  · next heq => exact absurd heq (hne (by decide))
  · next heq => exact absurd heq (hne (by decide))
  · next heq => exact absurd heq (hne (by decide))
  · next heq => exact absurd heq (hne (by decide))
  · next heq => exact absurd heq (hne (by decide))
  · rfl

/-- The first key of a table in braces starts right behind the blanks. -/
theorem Keys.skipGap {path : List String} {key : String} (h : Keys cs path key rest) :
    Keys (skipGap cs) path key rest ∧ ∀ c ∈ (Reader.skipGap cs).head?, c ≠ '\x7d' := by
  -- Whether or not a dot follows, the first key begins with no gap and no brace.
  have hhead : ∀ {cs₁ rest : List Char} {key : String}, Gap cs cs₁ → Key cs₁ key rest →
      Reader.skipGap cs = cs₁ ∧ ∀ c ∈ cs₁.head?, c ≠ '\x7d' := by
    intro cs₁ rest key hgap hkey
    refine ⟨hgap.skipGap_eq.trans (skipGap_eq_self hkey.head_not_gap), ?_⟩
    obtain ⟨c, more, rfl, hc⟩ := hkey.head
    intro c' hc' hbrace
    cases hc'
    rw [hbrace] at hc
    revert hc
    decide
  cases h with
  | last hgap hkey hgap₁ =>
    obtain ⟨heq, hne⟩ := hhead hgap hkey
    rw [heq]
    exact ⟨.last (.refl _) hkey hgap₁, hne⟩
  | dot hgap hkey hgap₁ hmore =>
    obtain ⟨heq, hne⟩ := hhead hgap hkey
    rw [heq]
    exact ⟨.dot (.refl _) hkey hgap₁ hmore, hne⟩

/-- The first of several fields may be read without the gap in front of it, and is no
closing brace. -/
lemma Fields.skipGap {es es' : Entries} (h : Fields es cs es' rest) :
    Fields es (skipGap cs) es' rest ∧ ∀ c ∈ (Reader.skipGap cs).head?, c ≠ '\x7d' := by
  cases h with
  | last hkeys hgap hvalue hdefine hgap₁ =>
    exact ⟨.last hkeys.skipGap.1 hgap hvalue hdefine hgap₁, hkeys.skipGap.2⟩
  | next hkeys hgap hvalue hdefine hgap₁ hmore =>
    exact ⟨.next hkeys.skipGap.1 hgap hvalue hdefine hgap₁ hmore, hkeys.skipGap.2⟩

/-- A value is no closing bracket. -/
lemma Value.not_close (h : Value cs item rest) (more : List Char) :
    cs ≠ ']' :: more := by
  obtain ⟨c, more', rfl, hc⟩ := h.head
  intro heq
  rw [(List.cons.inj heq).1] at hc
  cases hc

/-- One item of an array. -/
lemma array_item {cs₁ cs₂ : List Char} {fuel : Nat} (hblank : Blank cs cs₁)
    (hvalue : Value cs₁ item cs₂) (hread : value fuel cs₁ = some (item, cs₂))
    (acc : List Item) :
    array (fuel + 1) acc cs = match skipLines (cs₂.length + 1) cs₂ with
      | ',' :: rest => array fuel (item :: acc) rest
      | ']' :: rest => some (.list (item :: acc).reverse, rest)
      | _ => none := by
  conv => lhs; unfold array
  rw [hblank.skipLines_eq hvalue.solid (Nat.lt_succ_self _)]
  split
  · exact absurd rfl (hvalue.not_close _)
  · rw [hread]
    rfl

/-- One field of a table in braces. -/
lemma inlineTable_field {cs₁ cs₂ cs₃ : List Char} {path : List String} {key : String}
    {es es' : Entries} {fuel : Nat} (hkeys : Keys cs path key ('=' :: cs₁))
    (hgap : Gap cs₁ cs₂) (hvalue : Value cs₂ item cs₃)
    (hread : value fuel cs₂ = some (item, cs₃))
    (hdefine : es.define path key item = some es') :
    inlineTable (fuel + 1) es cs = match skipGap cs₃ with
      | ',' :: rest => inlineTable fuel es' rest
      | '\x7d' :: rest => some (.inline es', rest)
      | _ => none := by
  conv => lhs; unfold inlineTable
  rw [hkeys.dottedKey_eq (endsKey_cons (by decide) _) (Nat.lt_succ_self _)]
  show ((value fuel (skipGap _)).bind fun x => (es.define path _ x.1).bind fun es =>
    match skipGap x.2 with
    | ',' :: rest => inlineTable fuel es rest
    | '\x7d' :: rest => some (Item.inline es, rest)
    | _ => none) = _
  rw [hgap.skipGap_eq, hvalue.solid.skipGap_eq, hread, Option.bind_some, hdefine]
  rfl

mutual

/-- Every value of the grammar is read up to its end, with fuel for what it takes. -/
theorem Value.value_eq {cs rest : List Char} {item : Item} (hrest : Ends rest) :
    ∀ {fuel : Nat}, Value cs item rest → cs.length ≤ fuel + rest.length →
      value fuel cs = some (item, rest)
  | 0, h, hfuel => by
    have := h.length_lt
    omega
  | fuel + 1, .isTrue, _ => rfl
  | fuel + 1, .isFalse, _ => rfl
  | fuel + 1, .text h, _ => by
    obtain ⟨c, more, rfl, rfl | rfl⟩ := h.head
    · show (text _).map _ = _
      rw [h.text_eq hrest.not_quote]
      rfl
    · show (text _).map _ = _
      rw [h.text_eq hrest.not_quote]
      rfl
  -- Numbers and moments begin alike, and are told apart by what their first digits are
  -- followed by.
  | fuel + 1, .number h, _ => by
    obtain ⟨c, more, rfl, hc⟩ := h.head
    rw [value_of_scalar hc, h.startsMoment_eq hrest, h.number_eq hrest]
    rfl
  | fuel + 1, .moment h, _ => by
    obtain ⟨c, more, heq, hc⟩ := h.head
    have hread := h.moment_eq hrest
    have hstarts := h.startsMoment_eq
    rw [heq] at hread hstarts ⊢
    rw [value_of_scalar hc, hstarts, if_pos rfl, hread]
  | fuel + 1, .array h, hfuel => by
    rw [List.length_cons] at hfuel
    exact h.array_eq [] (by omega)
  | fuel + 1, @Value.empty cs₁ _ h, _ => by
    have hskip : skipGap cs₁ = '\x7d' :: rest :=
      h.skipGap_eq.trans (skipGap_eq_self fun c hc => by cases hc; rfl)
    show (match skipGap cs₁ with
      | '\x7d' :: rest => some (Item.inline [], rest)
      | rest => inlineTable fuel [] rest) = _
    rw [hskip]
    rfl
  | fuel + 1, @Value.inline cs₁ _ _ h, hfuel => by
    have hle := (gap_skipGap cs₁).length_le
    rw [List.length_cons] at hfuel
    have hread :=
      h.skipGap.1.inlineTable_eq
        (show (skipGap cs₁).length ≤ fuel + rest.length by omega)
    show (match skipGap cs₁ with
      | '\x7d' :: rest => some (Item.inline [], rest)
      | rest => inlineTable fuel [] rest) = _
    -- The first key is no closing brace.
    split
    · next heq => exact absurd rfl (h.skipGap.2 '\x7d' (by rw [heq]; rfl))
    · exact hread

/-- The items of an array are read up to its closing bracket. -/
theorem Items.array_eq {cs rest : List Char} {items : List Item} :
    ∀ {fuel : Nat} (acc : List Item), Items cs items (']' :: rest) →
      cs.length ≤ fuel + rest.length →
      array fuel acc cs = some (.list (acc.reverse ++ items), rest)
  | 0, _, h, hfuel => by
    have := h.length_le
    rw [List.length_cons] at this
    omega
  | fuel + 1, acc, .none h, _ => by
    unfold array
    rw [h.skipLines_eq (solid_cons (by decide) rest) (Nat.lt_succ_self _),
      List.append_nil]
    rfl
  -- The fuel is enough because every reader leaves less than it was given.
  | fuel + 1, acc, .last h h₁ h₂, hfuel => by
    have hlength := h.length_le
    have hlength₂ := h₂.length_le
    rw [List.length_cons] at hlength₂
    have hends := h₂.ends fun c hc => by cases hc; decide
    have hread := h₁.value_eq hends (show _ ≤ fuel + _ by omega)
    rw [array_item h h₁ hread, h₂.skipLines_eq (solid_cons (by decide) rest)
      (Nat.lt_succ_self _), ← List.reverse_cons]
    rfl
  | fuel + 1, acc, .next h h₁ h₂ h₃, hfuel => by
    have hlength := h.length_le
    have hlength₁ := h₁.length_lt
    have hlength₂ := h₂.length_le
    have hlength₃ := h₃.length_le
    rw [List.length_cons] at hlength₂ hlength₃
    have hends := h₂.ends fun c hc => by cases hc; decide
    have hread := h₁.value_eq hends (show _ ≤ fuel + _ by omega)
    rw [array_item h h₁ hread, h₂.skipLines_eq (solid_cons (by decide) _)
      (Nat.lt_succ_self _)]
    show array fuel (_ :: acc) _ = _
    rw [h₃.array_eq _ (by omega), List.reverse_cons, List.append_assoc]
    rfl

/-- The fields of a table are read up to its closing brace. -/
theorem Fields.inlineTable_eq {cs rest : List Char} {es es' : Entries} :
    ∀ {fuel : Nat}, Fields es cs es' ('\x7d' :: rest) → cs.length ≤ fuel + rest.length →
      inlineTable fuel es cs = some (.inline es', rest)
  | 0, h, hfuel => by
    have := h.length_lt
    rw [List.length_cons] at this
    omega
  -- The fuel is enough because every reader leaves less than it was given.
  | fuel + 1, .last h h₁ h₂ hdefine h₃, hfuel => by
    have hlength := h.length_lt
    have hlength₁ := h₁.length_le
    have hlength₃ := h₃.length_le
    rw [List.length_cons] at hlength hlength₃
    have hends := ends_of_gap h₃ fun c hc => by cases hc; decide
    have hread := h₂.value_eq hends (show _ ≤ fuel + _ by omega)
    rw [inlineTable_field h h₁ h₂ hread hdefine, h₃.skipGap_eq]
    rfl
  | fuel + 1, .next h h₁ h₂ hdefine h₃ h₄, hfuel => by
    have hlength := h.length_lt
    have hlength₁ := h₁.length_le
    have hlength₂ := h₂.length_lt
    have hlength₃ := h₃.length_le
    have hlength₄ := h₄.length_lt
    rw [List.length_cons] at hlength hlength₃ hlength₄
    have hends := ends_of_gap h₃ fun c hc => by cases hc; decide
    have hread := h₂.value_eq hends (show _ ≤ fuel + _ by omega)
    rw [inlineTable_field h h₁ h₂ hread hdefine, h₃.skipGap_eq]
    exact h₄.inlineTable_eq (by omega)

end

end

end Workplan.Toml.Grammar
