import Mathlib.Tactic.Lemma
import Workplan.Proofs.Toml.Grammar

/-!
# Blanks

White space, line breaks and comments are dropped as the grammar has them: up to the
first character that is *solid*, neither blank nor the start of a comment or a line
break (`Blank.skipLines_eq`, `blank_of_solid`).  The end of a line is the end of the
text or a line break (`lineEnd_eq_some_iff`).
-/

namespace Workplan.Toml.Grammar

open Reader

/-! ## Runs of characters -/

/-- A property of all characters of a list is decided by going through the list, not
through all characters. -/
instance (priority := high) decidableForallMem (p : Char → Prop) [DecidablePred p]
    (cs : List Char) :
    Decidable (∀ c ∈ cs, p c) :=
  List.decidableBAll p cs

section
variable {p : Char → Bool} {cs body rest : List Char}

theorem run_takeWhile (p : Char → Bool) (cs : List Char) :
    Run p cs (cs.takeWhile p) (cs.dropWhile p) :=
  ⟨List.takeWhile_append_dropWhile.symm, List.all_eq_true.mp List.all_takeWhile⟩

/-- A run that cannot be continued is the longest. -/
theorem Run.takeWhile_eq (h : Run p cs body rest)
    (hrest : ∀ c ∈ rest.head?, p c = false) : cs.takeWhile p = body := by
  obtain ⟨rfl, hbody⟩ := h
  rw [List.takeWhile_append_of_pos hbody]
  cases rest with
  | nil => exact List.append_nil _
  | cons c rest =>
    rw [List.takeWhile_cons_of_neg (by rw [hrest c rfl]; exact Bool.false_ne_true),
      List.append_nil]

theorem Run.dropWhile_eq (h : Run p cs body rest)
    (hrest : ∀ c ∈ rest.head?, p c = false) : cs.dropWhile p = rest := by
  obtain ⟨rfl, hbody⟩ := h
  rw [List.dropWhile_append_of_pos hbody]
  cases rest with
  | nil => rfl
  | cons c rest =>
    exact List.dropWhile_cons_of_neg (by rw [hrest c rfl]; exact Bool.false_ne_true)

theorem Run.drop_eq (h : Run p cs body rest) : cs.drop body.length = rest := by
  rw [h.1, List.drop_left]

theorem Run.length_eq (h : Run p cs body rest) :
    cs.length = body.length + rest.length := by
  rw [h.1, List.length_append]

end

/-! ## Blanks -/

section
variable {cs cs₁ cs₂ rest : List Char}

theorem Gap.refl (cs : List Char) : Gap cs cs :=
  ⟨[], rfl, fun _ hc => absurd hc List.not_mem_nil⟩

theorem Gap.trans (h : Gap cs cs₁) (h₁ : Gap cs₁ cs₂) : Gap cs cs₂ := by
  obtain ⟨body, rfl, hbody⟩ := h
  obtain ⟨body₁, rfl, hbody₁⟩ := h₁
  exact ⟨body ++ body₁, (List.append_assoc ..).symm,
    List.forall_mem_append.mpr ⟨hbody, hbody₁⟩⟩

theorem Gap.length_le (h : Gap cs rest) : rest.length ≤ cs.length := by
  obtain ⟨body, hrun⟩ := h
  have := hrun.length_eq
  omega

/-- The reader skips a gap. -/
theorem gap_skipGap (cs : List Char) : Gap cs (skipGap cs) :=
  ⟨_, run_takeWhile isGap cs⟩

/-- A gap makes no difference to where skipping ends. -/
theorem Gap.skipGap_eq (h : Gap cs rest) : skipGap cs = skipGap rest := by
  obtain ⟨body, rfl, hbody⟩ := h
  exact List.dropWhile_append_of_pos hbody

theorem skipGap_eq_self (h : ∀ c ∈ cs.head?, isGap c = false) : skipGap cs = cs := by
  cases cs with
  | nil => rfl
  | cons c cs =>
    exact List.dropWhile_cons_of_neg (by rw [h c rfl]; exact Bool.false_ne_true)

theorem head_skipGap (cs : List Char) : ∀ c ∈ (skipGap cs).head?, isGap c = false := by
  intro c hc
  have hnot := List.head?_dropWhile_not isGap cs
  unfold skipGap at hc
  rw [hc] at hnot
  exact hnot

/-- The reader finds a line break exactly where there is one. -/
theorem lineBreak?_eq_some_iff : lineBreak? cs = some rest ↔ Break cs rest := by
  constructor
  · intro h
    unfold lineBreak? at h
    split at h
    · exact Option.some.inj h ▸ .lf
    · exact Option.some.inj h ▸ .crlf
    · cases h
  · intro h
    cases h with
    | lf => rfl
    | crlf => rfl

theorem lineBreak?_eq_none_iff : lineBreak? cs = none ↔ ∀ rest, ¬ Break cs rest := by
  rw [Option.eq_none_iff_forall_ne_some]
  exact forall_congr' fun rest => not_congr lineBreak?_eq_some_iff

/-- What may stand in front of a line break, but not inside a line. -/
theorem Break.head (h : Break cs rest) :
    ∀ c ∈ cs.head?, isPrintable c = false ∧ isGap c = false := by
  intro c hc
  cases h with
  | lf => cases hc; exact ⟨rfl, rfl⟩
  | crlf => cases hc; exact ⟨rfl, rfl⟩

theorem Break.length_lt (h : Break cs rest) : rest.length < cs.length := by
  cases h with
  | lf => exact Nat.lt_succ_self _
  | crlf => exact Nat.lt_succ_of_lt (Nat.lt_succ_self _)

/-- The reader skips a comment or nothing. -/
theorem remark_skipComment (cs : List Char) : Remark cs (skipComment cs) := by
  unfold skipComment
  split
  · exact .comment (run_takeWhile isPrintable _)
  · exact .none

/-- Behind a comment nothing printable is left. -/
lemma skipComment_spec (cs : List Char) :
    skipComment cs = cs ∨ ∀ c ∈ (skipComment cs).head?, isPrintable c = false := by
  unfold skipComment
  split
  · next rest =>
    refine Or.inr fun c hc => ?_
    have hnot := List.head?_dropWhile_not isPrintable rest
    rw [hc] at hnot
    exact hnot
  · exact Or.inl rfl

/-- Where no comment begins nothing is skipped. -/
lemma skipComment_eq_self (h : cs.head? ≠ some '#') : skipComment cs = cs := by
  unfold skipComment
  split
  · exact absurd rfl h
  · rfl

/-- A comment is skipped to the end of what may stand in it. -/
lemma Remark.skipComment_eq (h : Remark cs rest)
    (hrest : ∀ c ∈ rest.head?, isPrintable c = false) :
    skipComment cs = rest := by
  cases h with
  | none =>
    refine skipComment_eq_self fun hc => ?_
    exact absurd (hrest '#' hc) (by decide)
  | comment hrun => exact hrun.dropWhile_eq hrest

lemma Remark.length_le (h : Remark cs rest) : rest.length ≤ cs.length := by
  cases h with
  | none => exact Nat.le_refl _
  | comment hrun =>
    have := hrun.length_eq
    rw [List.length_cons]
    omega

/-- A comment starts with no space, and neither does a line break. -/
lemma Remark.skipGap_eq (h : Remark cs rest)
    (hrest : ∀ c ∈ rest.head?, isGap c = false) : skipGap cs = cs := by
  cases h with
  | none => exact skipGap_eq_self hrest
  | comment hrun => rfl

/-- Blanks and a comment are dropped together. -/
theorem skipComment_skipGap {cs₁ : List Char} (hgap : Gap cs cs₁)
    (hremark : Remark cs₁ rest) (hrest : ∀ c ∈ rest.head?, isPrintable c = false ∧
      isGap c = false) : skipComment (skipGap cs) = rest := by
  rw [hgap.skipGap_eq, hremark.skipGap_eq fun c hc => (hrest c hc).2,
    hremark.skipComment_eq fun c hc => (hrest c hc).1]

/-- A line that says nothing is not empty, since it has an end. -/
theorem length_lt_of_line {cs₁ cs₂ : List Char} (hgap : Gap cs cs₁)
    (hremark : Remark cs₁ cs₂) (hbreak : Break cs₂ rest) :
    rest.length < cs.length := by
  have := hgap.length_le
  have := hremark.length_le
  have := hbreak.length_lt
  omega

/-- Blank is also nothing at all. -/
theorem Blank.length_le (h : Blank cs rest) : rest.length ≤ cs.length := by
  induction h with
  | gap hgap => exact hgap.length_le
  | line hgap hremark hbreak _ ih =>
    exact Nat.le_trans ih (Nat.le_of_lt (length_lt_of_line hgap hremark hbreak))

/-- What is neither blank nor starts a comment or a line break. -/
def Solid (cs : List Char) : Prop :=
  ∃ c rest, cs = c :: rest ∧ isGap c = false ∧ c ≠ '#' ∧ isPrintable c = true

/-- What is solid starts no line break. -/
lemma Solid.not_break (h : Solid cs) : ∀ rest, ¬ Break cs rest := by
  obtain ⟨c, rest, rfl, -, -, hprintable⟩ := h
  intro rest' hbreak
  have := (hbreak.head c rfl).1
  rw [hprintable] at this
  cases this

theorem Solid.skipGap_eq (h : Solid cs) : skipGap cs = cs := by
  obtain ⟨c, rest, rfl, hgap, -, -⟩ := h
  exact skipGap_eq_self fun c' hc' => by cases hc'; exact hgap

lemma Solid.skipComment_eq (h : Solid cs) : skipComment cs = cs := by
  obtain ⟨c, rest, rfl, -, hne, -⟩ := h
  exact skipComment_eq_self fun hc => hne (Option.some.inj hc)

/-- Blank space in front of anything solid is dropped. -/
theorem Blank.skipLines_eq (h : Blank cs rest) (hsolid : Solid rest) {fuel : Nat}
    (hfuel : cs.length < fuel) :
    skipLines fuel cs = rest := by
  induction h generalizing fuel with
  | gap hgap =>
    obtain ⟨fuel, rfl⟩ := Nat.exists_eq_succ_of_ne_zero (Nat.ne_zero_of_lt hfuel)
    rw [skipLines, hgap.skipGap_eq, hsolid.skipGap_eq, hsolid.skipComment_eq,
      lineBreak?_eq_none_iff.mpr hsolid.not_break]
  | line hgap hremark hbreak _ ih =>
    obtain ⟨fuel, rfl⟩ := Nat.exists_eq_succ_of_ne_zero (Nat.ne_zero_of_lt hfuel)
    have := length_lt_of_line hgap hremark hbreak
    rw [skipLines, skipComment_skipGap hgap hremark hbreak.head,
      lineBreak?_eq_some_iff.mpr hbreak]
    exact ih hsolid (by omega)

/-- What is dropped is blank, up to a comment in front of something that cannot
be printed. -/
theorem blank_skipLines {fuel : Nat} (hfuel : cs.length < fuel) :
    ∃ cs₁, Blank cs cs₁ ∧ Remark cs₁ (skipLines fuel cs) ∧
      (skipLines fuel cs = cs₁ ∨
        ∀ c ∈ (skipLines fuel cs).head?, isPrintable c = false) := by
  induction fuel generalizing cs with
  | zero => exact absurd hfuel (Nat.not_lt_zero _)
  | succ fuel ih =>
    have hgap := gap_skipGap cs
    have hremark := remark_skipComment (skipGap cs)
    have hspec := skipComment_spec (skipGap cs)
    rw [skipLines]
    cases hbreak : lineBreak? (skipComment (skipGap cs)) with
    | none => exact ⟨_, .gap hgap, hremark, hspec⟩
    | some rest =>
      rw [lineBreak?_eq_some_iff] at hbreak
      have := length_lt_of_line hgap hremark hbreak
      obtain ⟨cs₁, hblank, hremark₁, hspec₁⟩ := ih (show rest.length < fuel by omega)
      exact ⟨cs₁, .line hgap hremark hbreak hblank, hremark₁, hspec₁⟩

/-- If the reader stops at something solid, it has skipped what the grammar calls
blank. -/
theorem blank_of_solid {fuel : Nat} (hfuel : cs.length < fuel)
    (h : Solid (skipLines fuel cs)) :
    Blank cs (skipLines fuel cs) := by
  obtain ⟨cs₁, hblank, -, heq | hnot⟩ := blank_skipLines hfuel
  · rwa [← heq] at hblank
  · obtain ⟨c, rest, hc, -, -, hprintable⟩ := h
    rw [hc] at hnot
    rw [hnot c rfl] at hprintable
    cases hprintable

/-- The end of a line. -/
def LineEnd (cs rest : List Char) : Prop :=
  ∃ cs₁ cs₂, Gap cs cs₁ ∧ Remark cs₁ cs₂ ∧ (cs₂ = [] ∧ rest = [] ∨ Break cs₂ rest)

/-- The reader finds the end of a line exactly where there is one. -/
theorem lineEnd_eq_some_iff : lineEnd cs = some rest ↔ LineEnd cs rest := by
  constructor
  · intro h
    refine ⟨_, _, gap_skipGap cs, remark_skipComment _, ?_⟩
    unfold lineEnd at h
    split at h
    · next hnil => exact Or.inl ⟨hnil, (Option.some.inj h).symm⟩
    · exact Or.inr (lineBreak?_eq_some_iff.mp h)
  · rintro ⟨cs₁, cs₂, hgap, hremark, ⟨rfl, rfl⟩ | hbreak⟩
    · rw [lineEnd, skipComment_skipGap hgap hremark fun c hc => by cases hc]
    · rw [lineEnd, skipComment_skipGap hgap hremark hbreak.head]
      cases hbreak with
      | lf => rfl
      | crlf => rfl

theorem LineEnd.length_le (h : LineEnd cs rest) : rest.length ≤ cs.length := by
  obtain ⟨cs₁, cs₂, hgap, hremark, ⟨-, rfl⟩ | hbreak⟩ := h
  · exact Nat.zero_le _
  · exact Nat.le_of_lt (length_lt_of_line hgap hremark hbreak)

end

end Workplan.Toml.Grammar
