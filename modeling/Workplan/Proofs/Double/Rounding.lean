import Mathlib.Tactic.Lemma
import Workplan.Double.Decimal

/-!
# Rounding of decimal numbers

Rounding looks at the value of a quotient only, not at how the quotient is written:
`nearest` does not see a common factor, and `ofDecimal?` does not see zeros that move
between the digits and the exponent.  A magnitude is the nearest to its own value.
-/

namespace Workplan.Double

/-! ## Quotients -/

/-- A common factor of both sides of a quotient changes nothing. -/
theorem nearest_mul_right (num den : Nat) {c : Nat} (hc : 0 < c) :
    nearest (num * c) (den * c) = nearest num den := by
  unfold nearest
  have hscaled : num * c * Nat.pow 2 1074 = num * Nat.pow 2 1074 * c :=
    Nat.mul_right_comm _ _ _
  generalize Nat.pow 2 1074 = unit at hscaled ⊢
  have hdiv : num * unit * c / (den * c) = num * unit / den := Nat.mul_div_mul_right _ _ hc
  have hstep : ∀ p, den * c * p = den * p * c := fun p => Nat.mul_right_comm _ _ _
  have hlow : ∀ step, num * unit * c / (step * c) = num * unit / step := fun step =>
    Nat.mul_div_mul_right _ _ hc
  have hrest : ∀ step, num * unit * c % (step * c) = num * unit % step * c := fun step =>
    Nat.mul_mod_mul_right _ _ _
  -- Of the remainder and the step only the comparison matters.
  have htwo : ∀ r, 2 * (r * c) = 2 * r * c := fun r => (Nat.mul_assoc _ _ _).symm
  have hlt : ∀ a b, decide (a * c < b * c) = decide (a < b) := fun a b =>
    decide_eq_decide.mpr (Nat.mul_lt_mul_right hc)
  have heq : ∀ a b, (a * c == b * c) = (a == b) := fun a b => by
    rw [Bool.eq_iff_iff, beq_iff_eq, beq_iff_eq, Nat.mul_left_inj (by omega)]
  simp only [hscaled, hdiv, hstep, hlow, hrest, htwo, hlt, heq]

/-- The units of a magnitude are a significand of at most 53 bits times a power of two. -/
lemma unitsOf_eq (m : Nat) :
    ∃ significand, ∃ shift, unitsOf m = significand * Nat.pow 2 shift ∧
      m = shift * Nat.pow 2 52 + significand ∧ shift = (unitsOf m).log2 - 52 := by
  have hsum : m = (m / 2 ^ 52 - 1) * 2 ^ 52 + (m - (m / 2 ^ 52 - 1) * 2 ^ 52) := by omega
  refine ⟨m - (m / 2 ^ 52 - 1) * 2 ^ 52, m / 2 ^ 52 - 1, rfl, hsum, ?_⟩
  show _ = ((m - (m / 2 ^ 52 - 1) * 2 ^ 52) * 2 ^ (m / 2 ^ 52 - 1)).log2 - 52
  by_cases hsmall : m < 2 ^ 52
  · have hzero : m / 2 ^ 52 - 1 = 0 := by omega
    rw [hzero, Nat.zero_mul, Nat.sub_zero, Nat.pow_zero, Nat.mul_one]
    by_cases hm : m = 0
    · rw [hm, Nat.log2_zero]
    · have hlog := (Nat.log2_lt hm).mpr hsmall
      omega
  · -- The significand has exactly 53 bits.
    have hbits : 2 ^ 52 ≤ m - (m / 2 ^ 52 - 1) * 2 ^ 52 ∧
        m - (m / 2 ^ 52 - 1) * 2 ^ 52 < 2 ^ 53 := by
      omega
    generalize m - (m / 2 ^ 52 - 1) * 2 ^ 52 = significand at hbits ⊢
    generalize m / 2 ^ 52 - 1 = shift
    have hpow : 0 < 2 ^ shift := Nat.two_pow_pos shift
    have hlow : 2 ^ (52 + shift) ≤ significand * 2 ^ shift := by
      rw [Nat.pow_add]
      exact Nat.mul_le_mul_right _ hbits.1
    have hhigh : significand * 2 ^ shift < 2 ^ (52 + shift + 1) := by
      rw [show 52 + shift + 1 = 53 + shift by omega, Nat.pow_add]
      exact Nat.mul_lt_mul_of_pos_right hbits.2 hpow
    have hne : significand * 2 ^ shift ≠ 0 := by
      have := Nat.mul_pos (show 0 < significand by omega) hpow
      omega
    have hlog : (significand * 2 ^ shift).log2 = 52 + shift :=
      (Nat.log2_eq_iff hne).mpr ⟨hlow, hhigh⟩
    omega

/-- A magnitude is the nearest to its own value. -/
theorem nearest_unitsOf (m : Nat) : nearest (unitsOf m) (Nat.pow 2 1074) = m := by
  obtain ⟨significand, shift, hunits, hm, hshift⟩ := unitsOf_eq m
  have hunits : unitsOf m = significand * 2 ^ shift := hunits
  have hm : m = shift * 2 ^ 52 + significand := hm
  unfold nearest
  have hpos : ∀ n, 0 < Nat.pow 2 n := fun n => Nat.two_pow_pos n
  have hunit := hpos 1074
  generalize Nat.pow 2 1074 = unit at hunit ⊢
  have hpow : 0 < 2 ^ shift := Nat.two_pow_pos shift
  have hquot : unitsOf m * unit / unit = unitsOf m := Nat.mul_div_cancel _ hunit
  have hstep : 0 < unit * 2 ^ shift := Nat.mul_pos hunit hpow
  have hall : unitsOf m * unit = significand * (unit * 2 ^ shift) := by
    rw [hunits, Nat.mul_assoc, Nat.mul_comm unit]
  have hlow : unitsOf m * unit / (unit * 2 ^ shift) = significand := by
    rw [hall, Nat.mul_div_cancel _ hstep]
  have hrest : unitsOf m * unit % (unit * 2 ^ shift) = 0 := by
    rw [hall, Nat.mul_mod_left]
  simp only [hquot, ← hshift, Nat.pow_eq, hlow, hrest]
  have hup : (decide (unit * 2 ^ shift < 2 * 0) ||
      (2 * 0 == unit * 2 ^ shift && significand % 2 == 1)) = false := by
    rw [Bool.or_eq_false_iff, Bool.and_eq_false_iff]
    refine ⟨decide_eq_false (by omega), .inl (beq_false_of_ne (by omega))⟩
  rw [hup]
  exact hm.symm

/-! ## Decimal numbers -/

lemma digitCount_mul_ten {n : Nat} (hn : n ≠ 0) :
    digitCount (n * 10) = digitCount n + 1 := by
  unfold digitCount
  have happend := Nat.toDigits_append_toDigits (b := 10) (n := n) (d := 0) (by omega)
    (by omega) (by omega)
  rw [Nat.add_zero, Nat.mul_comm] at happend
  rw [← happend, List.length_append, Nat.toDigits_zero, List.length_singleton]

/-- A zero may move from the exponent to the digits. -/
theorem ofDecimal?_mul_ten (negative : Bool) {n : Nat} (hn : n ≠ 0) (e : Int) :
    ofDecimal? negative (n * 10) (e - 1) = ofDecimal? negative n e := by
  have hn' : n * 10 ≠ 0 := by omega
  have horder : (digitCount (n * 10) : Int) + (e - 1) = digitCount n + e := by
    rw [digitCount_mul_ten hn]
    omega
  unfold ofDecimal?
  simp only [hn, hn', if_false, horder]
  by_cases hpos : 1 ≤ e
  · have hten : n * 10 * Nat.pow 10 (e - 1).toNat = n * Nat.pow 10 e.toNat := by
      rw [show e.toNat = (e - 1).toNat + 1 by omega, Nat.pow_eq, Nat.pow_eq,
        Nat.pow_succ', Nat.mul_assoc]
    simp only [show (0 : Int) ≤ e - 1 by omega, show (0 : Int) ≤ e by omega, if_true, hten]
  · by_cases hzero : e = 0
    · have hround : nearest (n * 10) (Nat.pow 10 (-(e - 1)).toNat) = nearest
          (n * Nat.pow 10 e.toNat) 1 := by
        have hpow : Nat.pow 10 1 = 1 * 10 := rfl
        have hone : n * Nat.pow 10 0 = n := Nat.mul_one n
        rw [hzero, show (-((0 : Int) - 1)).toNat = 1 from rfl,
          show (0 : Int).toNat = 0 from rfl, hpow, hone]
        exact nearest_mul_right n 1 (by omega)
      simp only [show ¬ (0 : Int) ≤ e - 1 by omega, show (0 : Int) ≤ e by omega,
        if_true, if_false, hround]
    · have hround : nearest (n * 10) (Nat.pow 10 (-(e - 1)).toNat) = nearest n
          (Nat.pow 10 (-e).toNat) := by
        have hpow : Nat.pow 10 ((-e).toNat + 1) = Nat.pow 10 (-e).toNat * 10 := rfl
        rw [show (-(e - 1)).toNat = (-e).toNat + 1 by omega, hpow]
        exact nearest_mul_right n _ (by omega)
      simp only [show ¬ (0 : Int) ≤ e - 1 by omega, show ¬ (0 : Int) ≤ e by omega,
        if_false, hround]

/-- Any number of zeros may. -/
theorem ofDecimal?_mul_pow (negative : Bool) {n : Nat} (hn : n ≠ 0) (e : Int) (k : Nat) :
    ofDecimal? negative (n * Nat.pow 10 k) (e - k) = ofDecimal? negative n e := by
  show ofDecimal? negative (n * 10 ^ k) (e - k) = ofDecimal? negative n e
  induction k with
  | zero => rw [Nat.pow_zero, Nat.mul_one, Int.natCast_zero, Int.sub_zero]
  | succ k ih =>
    have hne : n * 10 ^ k ≠ 0 := by
      have :=
        Nat.mul_pos (show 0 < n by omega) (Nat.pow_pos (n := k) (show 0 < 10 by omega))
      omega
    rw [← ih, ← ofDecimal?_mul_ten negative hne, Nat.pow_succ, Nat.mul_assoc]
    congr 1
    omega

/-- The sign does not take part in rounding. -/
theorem ofDecimal?_eq_some (negative : Bool) {n : Nat} {e : Int} {d : Double}
    (h : ofDecimal? false n e = some d) :
    ofDecimal? negative n e = some ⟨negative, d.magnitude, d.isFinite⟩ := by
  have hmagnitude : ∀ m, ofMagnitude? false m = some d →
      ofMagnitude? negative m = some ⟨negative, d.magnitude, d.isFinite⟩ := by
    intro m hm
    unfold ofMagnitude? at hm ⊢
    split at hm
    · next hlt =>
      obtain rfl := Option.some.inj hm
      rw [dif_pos hlt]
    · cases hm
  -- The sign decides none of the branches.
  unfold ofDecimal? at h ⊢
  split at h
  · obtain rfl := Option.some.inj h
    rw [if_pos ‹_›]
    rfl
  · rw [if_neg ‹_›]
    dsimp only at h ⊢
    split at h
    · cases h
    · rw [if_neg ‹_›]
      split at h
      · obtain rfl := Option.some.inj h
        rw [if_pos ‹_›]
        rfl
      · rw [if_neg ‹_›]
        split at h
        · rw [if_pos ‹_›]
          exact hmagnitude _ h
        · rw [if_neg ‹_›]
          exact hmagnitude _ h

end Workplan.Double
