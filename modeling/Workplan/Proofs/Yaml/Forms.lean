import Mathlib.Tactic.Lemma
import Workplan.Proofs.Yaml.Numbers
import Workplan.Proofs.Yaml.Plain
import Workplan.Proofs.Yaml.Quoted
import Workplan.Yaml.Token

/-!
# Forms

What the form of a text promises: a text in the plain form reads as that text, and the
others may be written in the form that was chosen for them.  The texts of numbers, truth
values and null may be written plain too, and read as what they are.
-/

namespace Workplan.Yaml

/-! ## Tokens -/

/-- The style of the token of a text. -/
def styleOf (s : String) : Style :=
  if formOf s = .plain then .plain else .quoted

/-- The brackets of an empty list or table. -/
def brackets (table : Bool) : List Char :=
  if table then ['\x7b', '\x7d'] else ['[', ']']

/-- The tokens of an empty list or table. -/
def bracketTokens (table : Bool) : List Token :=
  if table then [.flowTableStart, .flowTableEnd] else [.flowListStart, .flowListEnd]

/-! ## Texts -/

section
variable {s : String}

/-- A text is written plain only if that is allowed and it then reads as a text. -/
theorem of_formOf_plain (h : formOf s = .plain) :
    readsAsText s = true ∧ allowsPlain s.toList = true := by
  unfold formOf at h
  dsimp only at h
  split at h
  · split at h <;> cases h
  · split at h
    · next hplain => exact Bool.and_eq_true_iff.mp hplain
    · split at h <;> cases h

/-- A text is written in single quotes only if that is allowed and it has no line feed. -/
theorem of_formOf_single (h : formOf s = .single) :
    allowsSingle s.toList = true ∧ '\n' ∉ s.toList := by
  unfold formOf at h
  dsimp only at h
  split at h
  · split at h <;> cases h
  · next hfeed =>
    split at h
    · cases h
    · split at h
      · next hsingle => exact ⟨hsingle, fun hmem => hfeed (List.contains_iff_mem.mpr hmem)⟩
      · cases h

/-- A text is written as a block only if that is allowed and it has a line feed. -/
theorem of_formOf_block (h : formOf s = .block) :
    allowsBlock s.toList = true ∧ '\n' ∈ s.toList := by
  unfold formOf at h
  dsimp only at h
  split at h
  · next hfeed =>
    split at h
    · next hblock => exact ⟨hblock, List.contains_iff_mem.mp hfeed⟩
    · cases h
  · split at h
    · cases h
    · split at h <;> cases h

/-- A plain scalar is a text only if it is that text. -/
lemma resolve_eq_text {t : String} (h : resolve s = .ok (.text t)) :
    t = s ∧ s.isEmpty = false ∧ isNull s = false := by
  unfold resolve at h
  split at h
  · cases h
  · next hempty =>
    rw [Bool.not_eq_true, Bool.or_eq_false_iff] at hempty
    refine ⟨?_, hempty⟩
    split at h
    · cases h
    · split at h
      · cases h
      · cases h
      · split at h
        · cases h
          rfl
        · split at h
          · cases h
          · cases h
            rfl

theorem of_readsAsText (h : readsAsText s = true) :
    resolve s = .ok (.text s) ∧ s.isEmpty = false ∧ isNull s = false := by
  unfold readsAsText at h
  split at h
  · next t hresolve =>
    obtain ⟨rfl, hempty⟩ := resolve_eq_text hresolve
    exact ⟨hresolve, hempty⟩
  · cases h

/-- A text that is written plain consists of words. -/
theorem plainText_of_formOf (h : formOf s = .plain) : PlainText s.toList := by
  obtain ⟨hreads, hallows⟩ := of_formOf_plain h
  refine plainText_of_allowsPlain hallows fun hnil => ?_
  obtain ⟨-, hempty, -⟩ := of_readsAsText hreads
  rw [String.toList_eq_nil_iff] at hnil
  rw [hnil] at hempty
  cases hempty

end

/-! ## Atoms -/

theorem of_isNumberChar {ch : Char} (h : isNumberChar ch = true) :
    (isGap ch = false ∧ isBreak ch = false) ∧ ch ≠ ':' ∧ isPrintable ch = true ∧
      "#,[]\x7b\x7d&*!|>'\"%@\x60".toList.contains ch = false := by
  -- The ten digits are looked at one by one.
  have hdigit : ∀ n, n < 58 → 48 ≤ n →
      (isGap (Char.ofNat n) = false ∧ isBreak (Char.ofNat n) = false) ∧
      Char.ofNat n ≠ ':' ∧ isPrintable (Char.ofNat n) = true ∧
      "#,[]\x7b\x7d&*!|>'\"%@\x60".toList.contains (Char.ofNat n) = false := by decide
  unfold isNumberChar at h
  simp only [Bool.or_eq_true, beq_iff_eq] at h
  rcases h with ((h | rfl) | rfl) | rfl
  · obtain ⟨hlow, hhigh⟩ := Text.isDigit_iff.mp h
    have hch := hdigit ch.toNat (by omega) hlow
    rwa [Char.ofNat_toNat] at hch
  · decide
  · decide
  · decide

/-- A number may be written plain. -/
lemma IsNumeral.plainText {cs : List Char} (h : IsNumeral cs) (negative : Bool) :
    PlainText (withSign negative cs) := by
  obtain ⟨c, rest, rfl, hc⟩ := h.head
  have hchars : ∀ ch ∈ withSign negative (c :: rest), isNumberChar ch = true := by
    cases negative with
    | false => exact h.chars
    | true => exact List.forall_mem_cons.mpr ⟨by decide, h.chars⟩
  have hminus : c ≠ '-' := by rintro rfl; cases hc
  have hpoint : c ≠ '.' := by rintro rfl; cases hc
  have hsigns : "?:-".toList.contains c = false := by
    have hnot : ("?:-".toList.all fun x => !x.isDigit) = true := by decide
    refine Bool.eq_false_iff.mpr fun hmem => ?_
    have hdigit := List.all_eq_true.mp hnot c (List.contains_iff_mem.mp hmem)
    rw [hc] at hdigit
    cases hdigit
  have hfirst := of_isNumberChar (h.chars c List.mem_cons_self)
  refine ⟨.last ⟨?_, fun ch hch => (of_isNumberChar (hchars ch hch)).1, ?_⟩, ?_, ?_⟩
  · cases negative <;> exact List.cons_ne_nil _ _
  · intro hlast
    exact (of_isNumberChar (hchars _ (List.mem_of_getLast? hlast))).2.1 rfl
  · cases negative with
    | false =>
      refine ⟨c, rest, rfl, hfirst.1, hfirst.2.2.2, fun hsign => ?_, ?_⟩
      · rw [hsigns] at hsign
        cases hsign
      · rintro rfl
        cases hc
    | true =>
      refine ⟨'-', c :: rest, rfl, by decide, by decide, fun _ => ?_, by decide⟩
      show (isGap c || isBreak c) = false
      rw [hfirst.1.1, hfirst.1.2]
      rfl
  · intro more
    cases negative with
    | false =>
      exact ⟨fun heq => hminus (List.cons.inj heq).1,
        fun heq => hpoint (List.cons.inj heq).1⟩
    | true =>
      refine ⟨fun heq => hminus (List.cons.inj (List.cons.inj heq).2).1, fun heq => ?_⟩
      cases (List.cons.inj heq).1

/-- What is no text, list or table is written as a word. -/
theorem plainText_atomChars (v : Json) : PlainText (atomChars v) := by
  have hnull : PlainText ['n', 'u', 'l', 'l'] :=
    plainText_of_allowsPlain (by decide) (by decide)
  cases v with
  | null => exact hnull
  | bool b => cases b <;> exact plainText_of_allowsPlain (by decide) (by decide)
  | int n =>
    show PlainText (toString n.val).toList
    rw [toString_int, String.toList_ofList]
    exact (isNumeral_toDigits _).plainText _
  | double d =>
    obtain ⟨cs, hcs, hnumeral, -, -⟩ := text_eq d
    show PlainText (Double.text false d).toList
    rw [hcs, String.toList_ofList]
    exact hnumeral.plainText _
  | str s => exact hnull
  | arr items => exact hnull
  | obj fields => exact hnull

/-! ## Short names -/

/-- A name in front of a colon: how it is written, by form. -/
theorem shortKey_cases (name : String) :
    (formOf name = .plain ∧ shortKey name = name.toList) ∨
      (formOf name = .single ∧ shortKey name = singleQuoted 0 name.toList) ∨
      (formOf name ≠ .plain ∧ shortKey name = doubleQuoted name.toList) := by
  unfold shortKey
  cases formOf name with
  | plain => exact Or.inl ⟨rfl, rfl⟩
  | single => exact Or.inr (Or.inl ⟨rfl, rfl⟩)
  | double => exact Or.inr (Or.inr ⟨by decide, rfl⟩)
  | block => exact Or.inr (Or.inr ⟨by decide, rfl⟩)

theorem shortKey_ne_nil (name : String) : shortKey name ≠ [] := by
  rcases shortKey_cases name with ⟨hform, hkey⟩ | ⟨-, hkey⟩ | ⟨-, hkey⟩
  · rw [hkey]
    exact (plainText_of_formOf hform).worded.ne_nil
  · rw [hkey]
    exact List.cons_ne_nil _ _
  · rw [hkey]
    exact List.cons_ne_nil _ _

/-- Characters with long escapes take several bytes. -/
lemma length_escapeChar_le (ch : Char) : (escapeChar ch).length ≤ 4 * ch.utf8Size := by
  have hpos := ch.utf8Size_pos
  have hnumbered : ∀ {width : Nat}, 0 < width → ch.toNat < 16 ^ width →
      ∀ sign, ('\\' :: sign :: hexUpper width ch.toNat).length = width + 2 := by
    intro width hwidth hch sign
    rw [List.length_cons, List.length_cons, length_hexUpper hwidth hch]
  -- Two digits are written up to `0xFF`, four up to `0xFFFF` and eight above, which the
  -- bytes of the character make up for.
  have htwo : 0xFF < ch.toNat → 2 ≤ ch.utf8Size := by
    intro hch
    have hne : ch.utf8Size ≠ 1 := by
      rw [Ne, Char.utf8Size_eq_one_iff, UInt32.le_iff_toNat_le]
      exact Nat.not_le.mpr (show 127 < ch.toNat by omega)
    omega
  have hfour : 0xFFFF < ch.toNat → 4 ≤ ch.utf8Size := by
    intro hch
    have heq : ch.utf8Size = 4 := by
      rw [Char.utf8Size_eq_four_iff, UInt32.lt_iff_toNat_lt]
      exact hch
    omega
  have hvalid : ch.toNat < 0xD800 ∨ (0xDFFF < ch.toNat ∧ ch.toNat < 0x110000) := ch.valid
  unfold escapeChar
  split
  all_goals first | (simp only [List.length_cons, List.length_nil]; omega) | skip
  split
  · simp only [List.length_cons, List.length_nil]
    omega
  · split
    · rw [hnumbered (by omega) (by omega)]
      omega
    · split
      · rw [hnumbered (by omega) (by omega)]
        omega
      · rw [hnumbered (by omega) (by omega)]
        omega

/-- A written name is not much longer than its bytes. -/
lemma length_flatMap_le {enc : Char → List Char}
    (henc : ∀ ch, (enc ch).length ≤ 4 * ch.utf8Size) (s : String) :
    (s.toList.flatMap enc).length ≤ 4 * s.utf8ByteSize := by
  -- The bytes of a text are counted character by character.
  have hlist : ∀ cs : List Char, (cs.flatMap enc).length ≤ 4 *
      (String.ofList cs).utf8ByteSize := by
    intro cs
    induction cs with
    | nil => exact Nat.zero_le _
    | cons ch cs ih =>
      have hcons : (String.ofList (ch :: cs)).utf8ByteSize = ch.utf8Size +
          (String.ofList cs).utf8ByteSize := by
        rw [String.ofList_cons, String.utf8ByteSize_append, String.utf8ByteSize_singleton]
      have hch := henc ch
      rw [List.flatMap_cons, List.length_append, hcons]
      omega
  have hs := hlist s.toList
  rwa [String.ofList_toList] at hs

section
variable {name : String}

theorem of_isShortKey (h : isShortKey name = true) :
    (∀ ch ∈ name.toList, isBreak ch = false) ∧ name.utf8ByteSize ≤ 128 := by
  unfold isShortKey at h
  rw [Bool.and_eq_true, Bool.not_eq_true', List.any_eq_false, decide_eq_true_iff] at h
  exact ⟨fun ch hch => Bool.eq_false_iff.mpr (h.1 ch hch), h.2⟩

lemma singleQuoted_of_one_line {cs : List Char} (h : ∀ ch ∈ cs, isBreak ch = false)
    (indent : Nat) :
    singleQuoted indent cs = '\'' :: (cs.flatMap singleChar ++ ['\'']) := by
  rw [singleQuoted_eq, singleBody_of_one_line indent h]

/-- A short name stands on one line. -/
theorem shortKey_one_line (h : isShortKey name = true) :
    ∀ ch ∈ shortKey name, isBreak ch = false := by
  obtain ⟨hone, -⟩ := of_isShortKey h
  -- In every form the characters of the name are written on the line they stand on.
  rcases shortKey_cases name with ⟨-, hkey⟩ | ⟨-, hkey⟩ | ⟨-, hkey⟩
  · rw [hkey]
    exact hone
  · have hchar : ∀ x ∈ name.toList.flatMap singleChar, isBreak x = false := by
      intro x hx
      obtain ⟨ch, hch, hx⟩ := List.mem_flatMap.mp hx
      unfold singleChar at hx
      split at hx
      · next hquote =>
        have hx' : x = '\'' := by simpa using hx
        rw [hx']
        rfl
      · rw [List.mem_singleton.mp hx]
        exact hone ch hch
    rw [hkey, singleQuoted_of_one_line hone, List.forall_mem_cons]
    refine ⟨by decide, fun x hx => ?_⟩
    rcases List.mem_append.mp hx with hx | hx
    · exact hchar x hx
    · rw [List.mem_singleton.mp hx]
      rfl
  · rw [hkey, doubleQuoted, List.forall_mem_cons]
    refine ⟨by decide, fun x hx => ?_⟩
    rcases List.mem_append.mp hx with hx | hx
    · exact isBreak_of_mem_escaped x hx
    · rw [List.mem_singleton.mp hx]
      rfl

/-- A short name is in reach of the colon behind it. -/
theorem length_shortKey_le (h : isShortKey name = true) :
    (shortKey name).length ≤ 1024 := by
  obtain ⟨hone, hsize⟩ := of_isShortKey h
  rcases shortKey_cases name with ⟨-, hkey⟩ | ⟨-, hkey⟩ | ⟨-, hkey⟩
  · have hchar : ∀ ch : Char, [ch].length ≤ 4 * ch.utf8Size := by
      intro ch
      have hpos := ch.utf8Size_pos
      rw [List.length_singleton]
      omega
    have hlength := length_flatMap_le hchar name
    rw [List.flatMap_singleton'] at hlength
    rw [hkey]
    omega
  · have hchar : ∀ ch, (singleChar ch).length ≤ 4 * ch.utf8Size := by
      intro ch
      have hpos := ch.utf8Size_pos
      unfold singleChar
      split <;> simp only [List.length_cons, List.length_nil] <;> omega
    have hlength := length_flatMap_le hchar name
    rw [hkey, singleQuoted_of_one_line hone]
    simp only [List.length_cons, List.length_append, List.length_nil]
    omega
  · have hlength := length_flatMap_le length_escapeChar_le name
    rw [hkey, doubleQuoted]
    simp only [List.length_cons, List.length_append, List.length_nil]
    omega

end

end Workplan.Yaml
