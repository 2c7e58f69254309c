import Mathlib.Tactic.Lemma
import Workplan.Proofs.Double.Rounding

/-!
# The fewest digits

The digits that are chosen for a double read back as that double: each candidate is read
back before it is taken, trailing zeros make no difference, and where no candidate is left
the exact expansion is read back (`shortest_means`).
-/

namespace Workplan.Double

/-- A decimal number that reads back as a magnitude, and is not zero. -/
structure Decimal.Means (d : Decimal) (magnitude : Nat) : Prop where
  digits : d.digits ≠ 0
  reads : ∃ x, ofDecimal? false d.digits d.exponent = some x ∧ x.magnitude = magnitude

/-- Digits that are seen to read back do. -/
lemma Decimal.means_of_readsAs {d : Decimal} {m : Nat} (hm : m ≠ 0)
    (h : d.readsAs m = true) :
    d.Means m := by
  obtain ⟨x, hx, hmagnitude⟩ := (Option.any_eq_true _ _).mp h
  refine ⟨fun hzero => hm ?_, x, hx, eq_of_beq hmagnitude⟩
  rw [hzero, ofDecimal?, if_pos rfl] at hx
  obtain rfl := Option.some.inj hx
  exact (eq_of_beq hmagnitude).symm

/-- Trailing zeros make no difference. -/
lemma Decimal.Means.strip {d : Decimal} {m : Nat} (h : d.Means m) (fuel : Nat) :
    (d.strip fuel).Means m := by
  induction fuel generalizing d with
  | zero => exact h
  | succ fuel ih =>
    rw [Decimal.strip]
    split
    · next hzero =>
      refine ih ⟨by have := h.digits; show d.digits / 10 ≠ 0; omega, ?_⟩
      have hsplit : d.digits = d.digits / 10 * 10 := by omega
      have hne : d.digits / 10 ≠ 0 := by omega
      have hread := ofDecimal?_mul_ten false hne (d.exponent + 1)
      rw [← hsplit, Int.add_sub_cancel] at hread
      rw [← hread]
      exact h.reads
    · exact h

/-- A candidate is read back before it is taken. -/
lemma withDigits?_means {m num den count : Nat} {d : Decimal} (hm : m ≠ 0)
    (h : withDigits? m num den count = some d) : d.Means m := by
  refine Decimal.means_of_readsAs hm ?_
  unfold withDigits? at h
  dsimp only at h
  generalize (ite (0 ≤ leadingPlace num den - (count : Int) + 1) _ _ : Nat × Nat) =
    sides at h
  split at h
  · next hbelow habove =>
    split at h
    · rw [← Option.some.inj h]; exact hbelow
    · rw [← Option.some.inj h]; exact habove
  · next hbelow _ => rw [← Option.some.inj h]; exact hbelow
  · next _ habove => rw [← Option.some.inj h]; exact habove
  · cases h

lemma unitsOf_pos {m : Nat} (hm : m ≠ 0) : 0 < unitsOf m := by
  show 0 < (m - (m / 2 ^ 52 - 1) * 2 ^ 52) * 2 ^ (m / 2 ^ 52 - 1)
  exact Nat.mul_pos (by omega) (Nat.two_pow_pos _)

/-- The units of a finite magnitude. -/
lemma unitsOf_lt {m : Nat} (hm : m < limit) :
    ∃ shift, shift ≤ 2045 ∧ unitsOf m < Nat.pow 2 53 * Nat.pow 2 shift := by
  have hlimit : limit = 2047 * 2 ^ 52 := rfl
  refine ⟨m / 2 ^ 52 - 1, by omega, ?_⟩
  show (m - (m / 2 ^ 52 - 1) * 2 ^ 52) * 2 ^ (m / 2 ^ 52 - 1) < 2 ^ 53 *
    2 ^ (m / 2 ^ 52 - 1)
  exact Nat.mul_lt_mul_of_pos_right (by omega) (Nat.two_pow_pos _)

/-- A number whose order of magnitude is that of doubles is rounded. -/
lemma ofDecimal?_of_bounds {n k a b : Nat} (hk : 0 < k) (hlow : Nat.pow 10 a ≤ n)
    (hhigh : n < Nat.pow 10 b) (ha : k ≤ a + 400) (hb : b ≤ k + 400) :
    ofDecimal? false n (-(k : Int)) = ofMagnitude? false (nearest n (Nat.pow 10 k)) := by
  have hten : ∀ p, 0 < Nat.pow 10 p := fun p => Nat.pow_pos (by omega)
  have hne : n ≠ 0 := by
    have := hten a
    omega
  have hb0 : 0 < b := by
    refine Nat.pos_of_ne_zero fun h0 => ?_
    rw [h0] at hhigh
    have hone : Nat.pow 10 0 = 1 := rfl
    omega
  have hfew : digitCount n ≤ b := (Nat.length_toDigits_le_iff (by omega) hb0).mpr hhigh
  have hmany : a < digitCount n := by
    by_cases ha0 : a = 0
    · rw [ha0]
      exact Nat.length_toDigits_pos
    · refine Nat.lt_of_not_le fun hle => ?_
      exact absurd ((Nat.length_toDigits_le_iff (by omega) (by omega)).mp hle)
        (Nat.not_lt.mpr hlow)
  have hexponent : (-(-(k : Int))).toNat = k := by omega
  unfold ofDecimal?
  rw [if_neg hne]
  dsimp only
  rw [if_neg (by omega), if_neg (by omega), if_neg (by omega), hexponent]

lemma nearest_expansion (num k : Nat) :
    nearest (num * Nat.pow 5 k) (Nat.pow 10 k) = nearest num (Nat.pow 2 k) := by
  have hten : Nat.pow 10 k = Nat.pow 2 k * Nat.pow 5 k := Nat.mul_pow 2 5 k
  have hfive : 0 < Nat.pow 5 k := Nat.pow_pos (by omega)
  rw [hten]
  exact nearest_mul_right num (Nat.pow 2 k) hfive

lemma expansion_ne_zero {num : Nat} (hnum : 0 < num) (k : Nat) :
    (expansion num k).digits ≠ 0 :=
  Nat.ne_of_gt (Nat.mul_pos hnum (Nat.pow_pos (by omega)))

/-- How large the expansion of a magnitude is: three binary digits are less than one
decimal digit. -/
lemma expansion_lt {num shift k n : Nat} (hnum : num < Nat.pow 2 53 * Nat.pow 2 shift)
    (hshift : 53 + shift ≤ k + 3 * n) : num * Nat.pow 5 k < Nat.pow 10 (k + n) := by
  have hfive : 0 < Nat.pow 5 k := Nat.pow_pos (by omega)
  have height : Nat.pow 2 (3 * n) ≤ Nat.pow 10 n := by
    calc Nat.pow 2 (3 * n) = Nat.pow 8 n := Nat.pow_mul 2 3 n
      _ ≤ Nat.pow 10 n := Nat.pow_le_pow_left (by omega) n
  have hnum' : num < Nat.pow 2 k * Nat.pow 10 n := by
    calc num < Nat.pow 2 53 * Nat.pow 2 shift := hnum
      _ = Nat.pow 2 (53 + shift) := (Nat.pow_add 2 53 shift).symm
      _ ≤ Nat.pow 2 (k + 3 * n) := Nat.pow_le_pow_right (by omega) hshift
      _ = Nat.pow 2 k * Nat.pow 2 (3 * n) := Nat.pow_add 2 k (3 * n)
      _ ≤ Nat.pow 2 k * Nat.pow 10 n := Nat.mul_le_mul_left _ height
  calc num * Nat.pow 5 k < Nat.pow 2 k * Nat.pow 10 n * Nat.pow 5 k :=
        Nat.mul_lt_mul_of_pos_right hnum' hfive
    _ = Nat.pow 2 k * Nat.pow 5 k * Nat.pow 10 n := Nat.mul_right_comm _ _ _
    _ = Nat.pow 10 k * Nat.pow 10 n := congrArg (· * Nat.pow 10 n) (Nat.mul_pow 2 5 k).symm
    _ = Nat.pow 10 (k + n) := (Nat.pow_add 10 k n).symm

/-- How small the expansion of a magnitude is: three powers of five are more than
two of ten. -/
lemma le_expansion {num k n : Nat} (hnum : 0 < num) (hn : 3 * n ≤ k) :
    Nat.pow 10 (2 * n) ≤ num * Nat.pow 5 k := by
  calc Nat.pow 10 (2 * n) = Nat.pow 100 n := Nat.pow_mul 10 2 n
    _ ≤ Nat.pow 125 n := Nat.pow_le_pow_left (by omega) n
    _ = Nat.pow 5 (3 * n) := (Nat.pow_mul 5 3 n).symm
    _ ≤ Nat.pow 5 k := Nat.pow_le_pow_right (by omega) hn
    _ ≤ num * Nat.pow 5 k := Nat.le_mul_of_pos_left _ hnum

/-- An expansion is read back by rounding, as its order of magnitude is that of doubles. -/
lemma ofDecimal?_expansion {num shift k a b : Nat} (hnum : 0 < num)
    (hlt : num < Nat.pow 2 53 * Nat.pow 2 shift) (hlow : 0 < a ∧ 3 * a ≤ k)
    (hnear : k ≤ 2 * a + 400) (hhigh : 53 + shift ≤ k + 3 * b) (hfew : b ≤ 400) :
    ofDecimal? false (num * Nat.pow 5 k) (-(k : Int)) =
      ofMagnitude? false (nearest num (Nat.pow 2 k)) := by
  rw [ofDecimal?_of_bounds (by omega) (le_expansion hnum hlow.2)
    (expansion_lt hlt hhigh) hnear (by omega), nearest_expansion]

/-- The exact expansion of a finite magnitude reads back, if its places are those of the
least double. -/
lemma expansion_means {m places : Nat} (hm : m ≠ 0) (hlt : m < limit)
    (hnearest : nearest (unitsOf m) (Nat.pow 2 places) = m) (hplaces : places = 1074) :
    (expansion (unitsOf m) places).Means m := by
  obtain ⟨shift, hshift, hbound⟩ := unitsOf_lt hlt
  have hpos : 0 < unitsOf m := unitsOf_pos hm
  have hread := ofDecimal?_expansion (k := places) (a := 358) (b := 342) hpos hbound
    (by omega) (by omega) (by omega) (by omega)
  rw [hnearest, ofMagnitude?, dif_pos hlt] at hread
  exact ⟨expansion_ne_zero hpos places, _, hread, rfl⟩

/-- Whichever digits are chosen, they read back if the exact expansion does. -/
lemma fewestDigits_means {places m : Nat} (hm : m ≠ 0)
    (hexact : (expansion (unitsOf m) places).Means m) :
    (fewestDigits places m).Means m := by
  unfold fewestDigits
  split
  · next d hd =>
    obtain ⟨count, -, hcount⟩ := List.exists_of_findSome?_eq_some hd
    exact (withDigits?_means hm hcount).strip 20
  · exact hexact.strip _

/-- The digits chosen for a double read back as that double. -/
theorem shortest_means {m : Nat} (hm : m ≠ 0) (hlt : m < limit) : (shortest m).Means m := by
  have hexact := expansion_means hm hlt (nearest_unitsOf m) rfl
  exact fewestDigits_means hm hexact

end Workplan.Double
