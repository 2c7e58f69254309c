import Mathlib.Tactic.Lemma
import Workplan.Text.Blank

/-!
# Digits read back

The digits of a number, in any base up to sixteen and with letters of either case, read
back as the number (`natOfDigits?_toDigits`, `natOfDigits?_padded`), and a run of decimal
digits reads as the number that it is (`natOfDigits?_of_isDigit`).
-/

namespace Workplan.Text

/-- One more digit. -/
def addDigit (base acc : Nat) (c : Char) : Option Nat :=
  match hexDigit? c with
  | some d => if d < base then some (acc * base + d) else none
  | none => none

lemma natOfDigits?_eq {base : Nat} {cs : List Char} (hne : cs ≠ []) :
    natOfDigits? base cs = cs.foldlM (addDigit base) 0 := by
  cases cs with
  | nil => exact absurd rfl hne
  | cons c rest => rfl

/-! ## Decimal digits -/

theorem isDigit_iff {c : Char} : c.isDigit = true ↔ 48 ≤ c.toNat ∧ c.toNat ≤ 57 := by
  unfold Char.isDigit Char.toNat
  rw [Bool.and_eq_true, decide_eq_true_iff, decide_eq_true_iff, ge_iff_le,
    UInt32.le_iff_toNat_le, UInt32.le_iff_toNat_le]
  exact Iff.rfl

/-- A decimal digit has the same value among the hexadecimal ones. -/
lemma hexDigit?_of_isDigit {c : Char} (h : c.isDigit = true) :
    hexDigit? c = some (c.toNat - 48) := by
  obtain ⟨hlow, hhigh⟩ := isDigit_iff.mp h
  have hle : '0' ≤ c ∧ c ≤ '9' := by
    rw [Char.le_def, Char.le_def, UInt32.le_iff_toNat_le, UInt32.le_iff_toNat_le]
    exact ⟨hlow, hhigh⟩
  rw [hexDigit?, if_pos hle]
  rfl

lemma addDigit_of_isDigit {c : Char} (h : c.isDigit = true) (acc : Nat) :
    addDigit 10 acc c = some (10 * acc + (c.toNat - 48)) := by
  obtain ⟨hlow, hhigh⟩ := isDigit_iff.mp h
  rw [addDigit, hexDigit?_of_isDigit h]
  dsimp only
  rw [if_pos (by omega), Nat.mul_comm]

lemma foldlM_addDigit {cs : List Char} (h : ∀ c ∈ cs, c.isDigit = true) (acc : Nat) :
    cs.foldlM (addDigit 10) acc = some (Nat.ofDigitChars 10 cs acc) := by
  induction cs generalizing acc with
  | nil => rfl
  | cons c rest ih =>
    rw [List.forall_mem_cons] at h
    rw [List.foldlM_cons, addDigit_of_isDigit h.1, Nat.ofDigitChars_cons]
    exact ih h.2 _

/-- A run of decimal digits reads as the number that it is. -/
theorem natOfDigits?_of_isDigit {cs : List Char} (hne : cs ≠ [])
    (h : ∀ c ∈ cs, c.isDigit = true) :
    natOfDigits? 10 cs = some (Nat.ofDigitChars 10 cs 0) := by
  rw [natOfDigits?_eq hne, foldlM_addDigit h]

/-- A character that is no digit spoils a decimal number. -/
theorem natOfDigits?_eq_none {cs : List Char} {c : Char} (hc : c ∈ cs)
    (hnot : ∀ acc, addDigit 10 acc c = none) : natOfDigits? 10 cs = none := by
  have hfold : ∀ acc, cs.foldlM (addDigit 10) acc = none := by
    induction cs with
    | nil => cases hc
    | cons c' rest ih =>
      intro acc
      rw [List.foldlM_cons]
      rcases List.mem_cons.mp hc with rfl | hrest
      · rw [hnot]
        rfl
      · cases addDigit 10 acc c' with
        | none => rfl
        | some acc' => exact ih hrest acc'
  rw [natOfDigits?_eq (List.ne_nil_of_mem hc), hfold]

/-! ## Digits of a number -/

/-- The digits of a number, written in letters that read as digits, read back. -/
lemma foldlM_toDigits {base : Nat} (hbase : 1 < base) {letter : Char → Char}
    (hletter : ∀ d, d < base → hexDigit? (letter d.digitChar) = some d) (n : Nat) :
    ((Nat.toDigits base n).map letter).foldlM (addDigit base) 0 = some n := by
  induction n using Nat.strongRecOn with
  | ind n ih =>
    have hadd : ∀ d acc, d < base →
        addDigit base acc (letter d.digitChar) = some (acc * base + d) := by
      intro d acc hd
      rw [addDigit, hletter d hd]
      exact if_pos hd
    by_cases hn : n < base
    · rw [Nat.toDigits_of_lt_base hn, List.map_singleton, List.foldlM_cons,
        hadd n 0 hn, Nat.zero_mul, Nat.zero_add]
      rfl
    · have hdiv : n / base < n := Nat.div_lt_self (by omega) hbase
      have hmod : n % base < base := Nat.mod_lt _ (by omega)
      rw [Nat.toDigits_of_base_le hbase (by omega), List.map_append, List.foldlM_append,
        ih _ hdiv, List.map_singleton]
      show (List.foldlM (addDigit base) (n / base) [letter (n % base).digitChar]) = some n
      rw [List.foldlM_cons, hadd _ _ hmod, Nat.div_add_mod']
      rfl

/-- A number is read back from its digits. -/
theorem natOfDigits?_toDigits (n : Nat) : natOfDigits? 10 (Nat.toDigits 10 n) = some n := by
  rw [natOfDigits?_eq Nat.toDigits_ne_nil]
  have hletter : ∀ d, d < 10 → hexDigit? (id d.digitChar) = some d := by decide
  have hread := foldlM_toDigits (show 1 < 10 by omega) hletter n
  rwa [List.map_id] at hread

/-- Hexadecimal digits in upper case, filled up with zeros, read back. -/
theorem natOfDigits?_padded (zeros n : Nat) :
    natOfDigits? 16 (List.replicate zeros '0' ++ (Nat.toDigits 16 n).map Char.toUpper) =
      some n := by
  have hletter : ∀ d, d < 16 → hexDigit? (Char.toUpper d.digitChar) = some d := by decide
  have hzeros : (List.replicate zeros '0').foldlM (addDigit 16) 0 = some 0 := by
    induction zeros with
    | zero => rfl
    | succ zeros ih =>
      rw [List.replicate_succ, List.foldlM_cons]
      exact ih
  have hne : List.replicate zeros '0' ++ (Nat.toDigits 16 n).map Char.toUpper ≠ [] := by
    simp
  rw [natOfDigits?_eq hne, List.foldlM_append, hzeros]
  exact foldlM_toDigits (by omega) hletter n

/-- A number without leading zeros, apart from zero itself. -/
theorem toDigits_eq_zero_cons {n : Nat} {rest : List Char}
    (h : Nat.toDigits 10 n = '0' :: rest) : rest = [] := by
  induction n using Nat.strongRecOn generalizing rest with
  | ind n ih =>
    by_cases hn : n < 10
    · rw [Nat.toDigits_of_lt_base hn] at h
      exact (List.cons.inj h).2.symm
    · rw [Nat.toDigits_of_base_le (by omega) (by omega)] at h
      cases hd : Nat.toDigits 10 (n / 10) with
      | nil => exact absurd hd Nat.toDigits_ne_nil
      | cons c cs =>
        rw [hd, List.cons_append] at h
        obtain ⟨rfl, -⟩ := List.cons.inj h
        -- The leading digits would be those of zero, which they are not.
        obtain rfl := ih (n / 10) (by omega) hd
        have hzero := natOfDigits?_toDigits (n / 10)
        rw [hd] at hzero
        have h0 : 0 = n / 10 := Option.some.inj hzero
        omega

end Workplan.Text
