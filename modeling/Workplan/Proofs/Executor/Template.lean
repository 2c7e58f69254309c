import Mathlib.Tactic.Lemma
import Workplan.Executor.Basic

/-!
# Filling templates

A template falls apart at its placeholders into pieces that contain none, and it does so
in one way only, because two placeholders never overlap.  Filling the template puts the
value where the placeholders were and changes nothing else
(`ExecutorSpec.template_fills`).

The pieces are found from left to right, as the template is filled (`pieces`).  That they
are the only ones rests on one fact about the placeholder: no proper end of it is a start
of it (`placeholder_unbordered`).
-/

namespace Workplan

namespace Template

/-- The pieces of a template between its placeholders. -/
def pieces : List Char → List (List Char)
  | '\x7b' :: '\x7b' :: 'i' :: 'n' :: 'p' :: 'u' :: 't' :: '\x7d' :: '\x7d' :: rest =>
    [] :: pieces rest
  | c :: rest => (pieces rest).modifyHead (c :: ·)
  | [] => [[]]

lemma pieces_placeholder (rest : List Char) :
    pieces (placeholder ++ rest) = [] :: pieces rest := rfl

lemma fillChars_placeholder (value rest : List Char) :
    fillChars value (placeholder ++ rest) = value ++ fillChars value rest := rfl

/-- A character that does not start a placeholder goes into the first piece. -/
lemma pieces_cons {c : Char} {rest : List Char} (h : ¬ placeholder <+: c :: rest) :
    pieces (c :: rest) = (pieces rest).modifyHead (c :: ·) := by
  refine pieces.eq_2 c rest fun rest' hc hrest => h ?_
  rw [hc, hrest]
  exact List.prefix_append placeholder rest'

lemma fillChars_cons (value : List Char) {c : Char} {rest : List Char}
    (h : ¬ placeholder <+: c :: rest) :
    fillChars value (c :: rest) = c :: fillChars value rest := by
  refine fillChars.eq_2 value c rest fun rest' hc hrest => h ?_
  rw [hc, hrest]
  exact List.prefix_append placeholder rest'

/-- A text starts with a placeholder, or its first character stays as it is. -/
lemma pieces_induction {P : List Char → Prop} (nil : P [])
    (found : ∀ rest, P rest → P (placeholder ++ rest))
    (other : ∀ c rest, ¬ placeholder <+: c :: rest → P rest → P (c :: rest))
    (t : List Char) : P t := by
  induction h : t.length using Nat.strongRecOn generalizing t with
  | ind n ih =>
    cases t with
    | nil => exact nil
    | cons c rest =>
      by_cases hprefix : placeholder <+: c :: rest
      · obtain ⟨rest', hrest'⟩ := hprefix
        rw [← hrest'] at h ⊢
        have hlength : (placeholder ++ rest').length = 9 + rest'.length :=
          List.length_append
        exact found rest' (ih rest'.length (by omega) rest' rfl)
      · have hlength : (c :: rest).length = rest.length + 1 := List.length_cons
        exact other c rest hprefix (ih rest.length (by omega) rest rfl)

theorem pieces_ne_nil (t : List Char) : pieces t ≠ [] := by
  induction t using pieces_induction with
  | nil => exact List.cons_ne_nil _ _
  | found rest ih => exact List.cons_ne_nil _ _
  | other c rest h ih =>
    rw [pieces_cons h]
    cases hpieces : pieces rest with
    | nil => exact absurd hpieces ih
    | cons p ps => exact List.cons_ne_nil _ _

/-- Filling a template joins its pieces with the value. -/
theorem fillChars_eq (value t : List Char) :
    fillChars value t = value.intercalate (pieces t) := by
  induction t using pieces_induction with
  | nil => rfl
  | found rest ih =>
    rw [fillChars_placeholder, pieces_placeholder,
      List.intercalate_cons_of_ne_nil (pieces_ne_nil rest), ih]
    rfl
  | other c rest h ih =>
    rw [fillChars_cons value h, pieces_cons h, ih]
    cases hpieces : pieces rest with
    | nil => exact absurd hpieces (pieces_ne_nil rest)
    | cons p ps =>
      rw [List.modifyHead_cons]
      cases ps with
      | nil => rfl
      | cons p' ps => rfl

/-- Joined by placeholders, the pieces are the template again. -/
theorem intercalate_pieces (t : List Char) : placeholder.intercalate (pieces t) = t := by
  rw [← fillChars_eq]
  induction t using pieces_induction with
  | nil => rfl
  | found rest ih => rw [fillChars_placeholder, ih]
  | other c rest h ih => rw [fillChars_cons placeholder h, ih]

/-- The first piece starts the template. -/
lemma head_pieces_prefix {t p : List Char} {ps : List (List Char)}
    (h : pieces t = p :: ps) : p <+: t := by
  have hjoined := intercalate_pieces t
  rw [h] at hjoined
  cases ps with
  | nil =>
    rw [List.intercalate_singleton] at hjoined
    exact hjoined ▸ List.prefix_rfl
  | cons p' ps =>
    rw [List.intercalate_cons_cons] at hjoined
    exact ⟨_, (List.append_assoc ..).symm.trans hjoined⟩

/-- No piece contains a placeholder. -/
theorem not_infix_of_mem_pieces {t p : List Char} (hp : p ∈ pieces t) :
    ¬ placeholder <:+: p := by
  induction t using pieces_induction generalizing p with
  | nil =>
    obtain rfl := List.mem_singleton.mp hp
    decide
  | found rest ih =>
    rcases List.mem_cons.mp hp with rfl | hp
    · decide
    · exact ih hp
  | other c rest h ih =>
    rw [pieces_cons h] at hp
    cases hpieces : pieces rest with
    | nil => exact absurd hpieces (pieces_ne_nil rest)
    | cons first ps =>
      rw [hpieces, List.modifyHead_cons] at hp
      rw [hpieces] at ih
      rcases List.mem_cons.mp hp with rfl | hp
      · intro hinfix
        rcases List.infix_cons_iff.mp hinfix with hstart | hlater
        · -- The placeholder would start the template.
          exact h
            (hstart.trans (List.cons_prefix_cons.mpr ⟨rfl, head_pieces_prefix hpieces⟩))
        · exact ih List.mem_cons_self hlater
      · exact ih (List.mem_cons_of_mem _ hp)

/-! ## Only one way -/

/-- No proper end of the placeholder is a start of it, whatever follows. -/
theorem placeholder_unbordered {k : Nat} (hpos : 0 < k) (hk : k < placeholder.length)
    (more more' : List Char) :
    placeholder.drop k ++ more ≠ placeholder ++ more' := by
  have hk : k < 9 := hk
  have hcases : k = 1 ∨ k = 2 ∨ k = 3 ∨ k = 4 ∨ k = 5 ∨ k = 6 ∨ k = 7 ∨ k = 8 := by omega
  rcases hcases with rfl | rfl | rfl | rfl | rfl | rfl | rfl | rfl <;> simp [placeholder]

/-- In front of a text without placeholders, none starts before that text has ended. -/
lemma not_prefix_of_clean {c : Char} {s : List Char} (h : ¬ placeholder <:+: c :: s)
    (rest : List Char) :
    ¬ placeholder <+: c :: (s ++ (placeholder ++ rest)) := by
  rintro ⟨more, hmore⟩
  have hsplit : placeholder ++ more = (c :: s) ++ (placeholder ++ rest) := hmore
  rcases List.append_eq_append_iff.mp hsplit with ⟨between, hbetween, -⟩ |
    ⟨between, hbetween, hrest⟩
  · exact h (hbetween ▸ List.infix_append_of_infix_left List.infix_rfl)
  · -- The placeholder would reach from the text into the one behind it.
    have hdrop : placeholder.drop (c :: s).length = between := by
      rw [hbetween, List.drop_left]
    by_cases hnil : between = []
    · rw [hnil, List.append_nil] at hbetween
      exact h (hbetween ▸ List.infix_rfl)
    · have hlength := congrArg List.length hbetween
      rw [List.length_append] at hlength
      have := List.length_pos_iff.mpr hnil
      refine placeholder_unbordered (k := (c :: s).length) (Nat.succ_pos _)
        (by omega) more rest ?_
      rw [hdrop, hrest]

lemma pieces_of_clean {s : List Char} (h : ¬ placeholder <:+: s) : pieces s = [s] := by
  induction s with
  | nil => rfl
  | cons c s ih =>
    rw [List.infix_cons_iff, not_or] at h
    rw [pieces_cons h.1, ih h.2]
    rfl

lemma pieces_append {s : List Char} (h : ¬ placeholder <:+: s) (rest : List Char) :
    pieces (s ++ (placeholder ++ rest)) = s :: pieces rest := by
  induction s with
  | nil => exact pieces_placeholder rest
  | cons c s ih =>
    have hstart := not_prefix_of_clean h rest
    rw [List.infix_cons_iff, not_or] at h
    rw [List.cons_append, pieces_cons hstart, ih h.2]
    rfl

/-- Pieces without placeholders, joined by placeholders, are found again. -/
lemma pieces_intercalate {ps : List (List Char)} (hne : ps ≠ [])
    (h : ∀ p ∈ ps, ¬ placeholder <:+: p) :
    pieces (placeholder.intercalate ps) = ps := by
  induction ps with
  | nil => exact absurd rfl hne
  | cons p ps ih =>
    rw [List.forall_mem_cons] at h
    cases ps with
    | nil =>
      rw [List.intercalate_singleton]
      exact pieces_of_clean h.1
    | cons p' ps =>
      rw [List.intercalate_cons_cons, List.append_assoc, pieces_append h.1,
        ih (List.cons_ne_nil _ _) h.2]

/-- Two places at which a placeholder starts are at least as far apart as it is long. -/
lemma length_le_of_prefix_drop {t : List Char} {i j : Nat} (hi : placeholder <+: t.drop i)
    (hj : placeholder <+: t.drop j) (hlt : i < j) : i + placeholder.length ≤ j := by
  refine Nat.le_of_not_lt fun hclose => ?_
  obtain ⟨more, hmore⟩ := hi
  obtain ⟨more', hmore'⟩ := hj
  refine placeholder_unbordered (k := j - i) (by omega) (by omega) more more' ?_
  have hdrop : (t.drop i).drop (j - i) = t.drop j := by
    rw [List.drop_drop, show i + (j - i) = j by omega]
  rw [hmore', ← hdrop, ← hmore, List.drop_append_of_le_length (by omega)]

/-- A template falls apart into texts without placeholders. -/
structure Cuts (t : String) (parts : List String) : Prop where
  nonempty : parts ≠ []
  joined : (String.ofList placeholder).intercalate parts = t
  clean : ∀ s ∈ parts, ¬ placeholder <:+: s.toList

lemma Cuts.map_toList {t : String} {parts : List String} (h : Cuts t parts) :
    parts.map String.toList = pieces t.toList := by
  have hjoined := congrArg String.toList h.joined
  rw [String.toList_intercalate, String.toList_ofList] at hjoined
  rw [← hjoined, pieces_intercalate]
  · exact fun hnil => h.nonempty (List.map_eq_nil_iff.mp hnil)
  · intro p hp
    obtain ⟨s, hs, rfl⟩ := List.mem_map.mp hp
    exact h.clean s hs

/-- The pieces that are found are such parts. -/
lemma cuts_pieces (t : String) : Cuts t ((pieces t.toList).map String.ofList) where
  nonempty := fun hnil => pieces_ne_nil _ (List.map_eq_nil_iff.mp hnil)
  joined := by
    have hback : ((pieces t.toList).map String.ofList).map String.toList =
        pieces t.toList := by
      rw [List.map_map]
      exact (List.map_congr_left fun p _ => String.toList_ofList).trans (List.map_id _)
    rw [← String.toList_inj, String.toList_intercalate, String.toList_ofList, hback,
      intercalate_pieces]
  clean := by
    intro s hs
    obtain ⟨p, hp, rfl⟩ := List.mem_map.mp hs
    rw [String.toList_ofList]
    exact not_infix_of_mem_pieces hp

/-- A template falls apart in one way only. -/
lemma Cuts.unique {t : String} {parts parts' : List String} (h : Cuts t parts)
    (h' : Cuts t parts') :
    parts = parts' := by
  rw [← List.map_inj_right fun _ _ => String.toList_inj.mp, h.map_toList, h'.map_toList]

/-- Filling a template puts the value between its parts. -/
lemma Cuts.fill_eq {t : String} {parts : List String} (h : Cuts t parts) (value : String) :
    fill t value = value.intercalate parts := by
  rw [fill, ← String.toList_inj, String.toList_ofList, fillChars_eq,
    String.toList_intercalate, h.map_toList]

end Template

/-- An executor for a template answers with the value between the parts of the template,
of which there is one choice only; without a placeholder it does not look at the value,
and no two placeholders overlap. -/
theorem ExecutorSpec.template_fills (t : String) (store : StoreHandle) (v : Json) :
    (∃ parts, Template.Cuts t parts ∧ (∀ parts', Template.Cuts t parts' → parts' = parts) ∧
      (ExecutorSpec.template t).task store v = .value (.str (v.render.intercalate parts))) ∧
    (¬ Template.placeholder <:+: t.toList →
      (ExecutorSpec.template t).task store v = .value (.str t)) ∧
    (∀ i j, Template.placeholder <+: t.toList.drop i →
      Template.placeholder <+: t.toList.drop j → i < j →
      i + Template.placeholder.length ≤ j) := by
  have htask : ∀ {parts}, Template.Cuts t parts →
      (ExecutorSpec.template t).task store v = .value
        (.str (v.render.intercalate parts)) := by
    intro parts hcuts
    rw [← hcuts.fill_eq v.render]
    rfl
  refine ⟨⟨_, Template.cuts_pieces t, fun parts' h => h.unique (Template.cuts_pieces t),
    htask (Template.cuts_pieces t)⟩, fun hclean => ?_,
      fun i j => Template.length_le_of_prefix_drop⟩
  have hwhole : Template.Cuts t [t] :=
    ⟨List.cons_ne_nil _ _, String.intercalate_singleton,
      List.forall_mem_singleton.mpr hclean⟩
  rw [htask hwhole, String.intercalate_singleton]

/-- A value that forms a placeholder with what follows it is not filled again, nor is half
a placeholder filled. -/
theorem ExecutorSpec.template_fills_once :
    (ExecutorSpec.template
      "\x7b\x7binput\x7d\x7d\x7d\x7d, \x7b\x7b\x7binput\x7d\x7d").task {}
      (.str "\x7b\x7binput")
      = .value (.str "\x7b\x7binput\x7d\x7d, \x7b\x7b\x7binput") ∧
    (ExecutorSpec.template "\x7b\x7bin").task {} .null = .value (.str "\x7b\x7bin") := by
  obtain ⟨⟨parts, -, honly, htask⟩, -, -⟩ :=
    template_fills "\x7b\x7binput\x7d\x7d\x7d\x7d, \x7b\x7b\x7binput\x7d\x7d" {}
      (.str "\x7b\x7binput")
  have hcuts : Template.Cuts "\x7b\x7binput\x7d\x7d\x7d\x7d, \x7b\x7b\x7binput\x7d\x7d"
      ["", "\x7d\x7d, \x7b", ""] :=
    ⟨List.cons_ne_nil _ _, by decide, by decide⟩
  have hfilled : String.intercalate "\x7b\x7binput" ["", "\x7d\x7d, \x7b", ""]
      = "\x7b\x7binput\x7d\x7d, \x7b\x7b\x7binput" := by decide
  rw [← honly _ hcuts] at htask
  exact ⟨hfilled ▸ htask, (template_fills "\x7b\x7bin" {} .null).2.1 (by decide)⟩

end Workplan
