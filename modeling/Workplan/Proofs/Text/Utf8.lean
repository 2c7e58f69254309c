import Mathlib.Tactic.Lemma
import Workplan.Text.Utf8

/-!
# UTF-8 read back

Bytes read as a text exactly when they are the bytes of that text (`decode?_eq_some_iff`),
and texts are ordered as their bytes are (`encode_lt_encode_iff`).  Both come from the
form that the bytes of one character have (`Spells`): a lead byte that tells how many
continuation bytes follow, each of which adds six bits to the number of the character.
-/

namespace Workplan.Text.Utf8

/-! ## The bytes of a character -/

/-- The bytes of the character with a number.  Each form starts where the shorter ones
end. -/
inductive Spells : Nat → List UInt8 → Prop where
  | one {n : Nat} {a : UInt8} (small : n < 0x80) (value : n = a.toNat) : Spells n [a]
  | two {n : Nat} {a b : UInt8} (low : 0x80 ≤ n) (high : n < 0x800)
      (continued : 0x80 ≤ b.toNat ∧ b.toNat < 0xC0) (lead : 0xC0 ≤ a.toNat)
      (value : n = (a.toNat - 0xC0) * 64 + (b.toNat - 0x80)) : Spells n [a, b]
  | three {n : Nat} {a b c : UInt8} (low : 0x800 ≤ n) (high : n < 0x10000)
      (continued : 0x80 ≤ b.toNat ∧ b.toNat < 0xC0 ∧ 0x80 ≤ c.toNat ∧ c.toNat < 0xC0)
        (lead : 0xE0 ≤ a.toNat)
      (value : n = ((a.toNat - 0xE0) * 64 + (b.toNat - 0x80)) * 64 +
        (c.toNat - 0x80)) : Spells n [a, b, c]
  | four {n : Nat} {a b c d : UInt8} (low : 0x10000 ≤ n) (high : n < 0x110000)
      (continued : 0x80 ≤ b.toNat ∧ b.toNat < 0xC0 ∧ 0x80 ≤ c.toNat ∧ c.toNat < 0xC0 ∧
        0x80 ≤ d.toNat ∧ d.toNat < 0xC0) (lead : 0xF0 ≤ a.toNat)
      (value : n = (((a.toNat - 0xF0) * 64 + (b.toNat - 0x80)) * 64 + (c.toNat - 0x80)) * 64
        + (d.toNat - 0x80)) : Spells n [a, b, c, d]

/-- A character is spelled by its bytes. -/
lemma spells_utf8EncodeChar (c : Char) : Spells c.toNat (String.utf8EncodeChar c) := by
  have hvalid := c.valid
  have hbyte : ∀ n, (UInt8.ofNat n).toNat = n % 256 := fun n => UInt8.toNat_ofNat'
  show Spells c.val.toNat (String.utf8EncodeChar c)
  simp only [UInt32.isValidChar, Nat.isValidChar] at hvalid
  unfold String.utf8EncodeChar
  generalize c.val.toNat = n at hvalid ⊢
  dsimp only
  split
  · refine .one (by omega) ?_
    rw [hbyte]
    omega
  split
  · refine .two (by omega) (by omega) ?_ ?_ ?_ <;> (simp only [hbyte]; omega)
  split
  · refine .three (by omega) (by omega) ?_ ?_ ?_ <;> (simp only [hbyte]; omega)
  · refine .four (by omega) (by omega) ?_ ?_ ?_ <;> (simp only [hbyte]; omega)

/-- A character is spelled in one way only. -/
lemma Spells.unique {n : Nat} {bytes bytes' : List UInt8} (h : Spells n bytes)
    (h' : Spells n bytes') :
    bytes = bytes' := by
  cases h <;> cases h' <;>
    first
    | omega
    | simp only [List.cons.injEq, and_true, ← UInt8.toNat_inj]
      omega

/-- Greater characters have greater bytes, whatever follows. -/
lemma Spells.lt {m n : Nat} {bytes bytes' : List UInt8} (h : Spells m bytes)
    (h' : Spells n bytes') (hlt : m < n) (rest rest' : List UInt8) :
    bytes ++ rest < bytes' ++ rest' := by
  cases h <;> cases h' <;>
    first
    | omega
    | simp only [List.cons_append, List.cons_lt_cons_iff, UInt8.lt_iff_toNat_lt,
        ← UInt8.toNat_inj]
      omega

/-! ## The bytes of a text -/

lemma toList_loop (bytes : ByteArray) (i : Nat) (acc : List UInt8) :
    ByteArray.toList.loop bytes i acc = acc.reverse ++ bytes.data.toList.drop i := by
  induction i, acc using ByteArray.toList.loop.induct bytes with
  | case1 i acc hlt ih =>
    have hi : i < bytes.data.toList.length := by simpa using hlt
    have hget : bytes.get! i = bytes.data.toList[i] := by
      rw [ByteArray.get!, Array.getElem_toList]
      exact getElem!_pos bytes.data i (by simpa using hlt)
    rw [ByteArray.toList.loop, if_pos hlt, ih, List.drop_eq_getElem_cons hi, hget,
      List.reverse_cons, List.append_assoc, List.singleton_append]
  | case2 i acc hge =>
    have hle : bytes.data.toList.length ≤ i := by simpa using hge
    rw [ByteArray.toList.loop, if_neg hge, List.drop_eq_nil_of_le hle, List.append_nil]

/-- The bytes of a text are those of its characters, one after another. -/
lemma encode_eq (s : String) : encode s = s.toList.flatMap String.utf8EncodeChar := by
  show ByteArray.toList s.toByteArray = _
  rw [ByteArray.toList, toList_loop, ← String.utf8Encode_toList, List.utf8Encode,
    List.toList_data_toByteArray]
  rfl

/-! ## Order -/

/-- Texts are ordered like their bytes. -/
lemma flatMap_lt {cs ds : List Char} (h : cs < ds) :
    cs.flatMap String.utf8EncodeChar < ds.flatMap String.utf8EncodeChar := by
  induction cs generalizing ds with
  | nil =>
    cases ds with
    | nil => exact absurd h (List.lt_irrefl [])
    | cons d ds =>
      rw [List.flatMap_nil, List.flatMap_cons]
      cases hbytes : String.utf8EncodeChar d with
      | nil => exact absurd hbytes String.utf8EncodeChar_ne_nil
      | cons b rest => exact List.nil_lt_cons b _
  | cons c cs ih =>
    cases ds with
    | nil => exact absurd h (List.not_lt_nil _)
    | cons d ds =>
      rw [List.flatMap_cons, List.flatMap_cons]
      obtain hlt | ⟨rfl, hrest⟩ := List.cons_lt_cons_iff.mp h
      · exact (spells_utf8EncodeChar c).lt (spells_utf8EncodeChar d) hlt _ _
      · exact List.append_left_lt (ih hrest)

/-- Texts are ordered as their bytes are. -/
theorem encode_lt_encode_iff {s t : String} : encode s < encode t ↔ s < t := by
  have hmono : ∀ {s t : String}, s < t → encode s < encode t := by
    intro s t h
    rw [encode_eq, encode_eq]
    exact flatMap_lt h
  refine ⟨fun h => ?_, hmono⟩
  -- Of two texts in another order the bytes are in another order too.
  rcases Decidable.em (s < t) with hlt | hge
  · exact hlt
  · rcases Decidable.em (t < s) with hgt | hle
    · exact absurd h (List.lt_asymm (hmono hgt))
    · obtain rfl : s = t := String.le_antisymm (String.not_lt.mp hle) (String.not_lt.mp hge)
      exact absurd h (List.lt_irrefl _)

/-! ## Reading -/

lemma contIn_eq_some_iff {lo hi b : UInt8} {v : Nat} :
    contIn lo hi b = some v ↔ lo.toNat ≤ b.toNat ∧ b.toNat ≤ hi.toNat ∧
      v = b.toNat - 0x80 := by
  unfold contIn
  rw [Option.ite_none_right_eq_some, Bool.and_eq_true, decide_eq_true_iff,
    decide_eq_true_iff, UInt8.le_iff_toNat_le, UInt8.le_iff_toNat_le, Option.some.injEq,
    and_assoc]
  exact and_congr_right fun _ => and_congr_right fun _ => eq_comm

/-- A lead byte announces one of the longer forms and keeps the second byte inside
its bounds. -/
lemma lead_eq_some_iff {b lo hi : UInt8} {n bits : Nat} :
    lead b = some (n, bits, lo, hi) ↔
      (n = 1 ∧ 0xC2 ≤ b.toNat ∧ b.toNat ≤ 0xDF ∧ bits = b.toNat - 0xC0 ∧ lo.toNat = 0x80 ∧
        hi.toNat = 0xBF) ∨
      (n = 2 ∧ 0xE0 ≤ b.toNat ∧ b.toNat ≤ 0xEF ∧ bits = b.toNat - 0xE0 ∧
        (b.toNat = 0xE0 → lo.toNat = 0xA0) ∧ (b.toNat ≠ 0xE0 → lo.toNat = 0x80) ∧
        (b.toNat = 0xED → hi.toNat = 0x9F) ∧ (b.toNat ≠ 0xED → hi.toNat = 0xBF)) ∨
      (n = 3 ∧ 0xF0 ≤ b.toNat ∧ b.toNat ≤ 0xF4 ∧ bits = b.toNat - 0xF0 ∧
        (b.toNat = 0xF0 → lo.toNat = 0x90) ∧ (b.toNat ≠ 0xF0 → lo.toNat = 0x80) ∧
        (b.toNat = 0xF4 → hi.toNat = 0x8F) ∧ (b.toNat ≠ 0xF4 → hi.toNat = 0xBF)) := by
  unfold lead
  simp only [Bool.and_eq_true, decide_eq_true_iff, beq_iff_eq, UInt8.le_iff_toNat_le,
    ← UInt8.toNat_inj]
  repeat' split
  all_goals
    simp only [Option.some.injEq, Prod.mk.injEq, ← UInt8.toNat_inj, reduceCtorEq,
      false_iff, UInt8.reduceToNat] at *
    omega

lemma cont_eq_some_iff {b : UInt8} {v : Nat} :
    cont b = some v ↔ 0x80 ≤ b.toNat ∧ b.toNat < 0xC0 ∧ v = b.toNat - 0x80 := by
  rw [cont, contIn_eq_some_iff]
  exact and_congr_right fun _ => and_congr_left fun _ => Nat.lt_succ_iff.symm

lemma follow_cons {b : UInt8} {n acc value taken : Nat} {full : Bool} {rest : List UInt8}
    (hlow : 0x80 ≤ b.toNat) (hhigh : b.toNat < 0xC0)
    (h : follow n (acc * 64 + (b.toNat - 0x80)) rest = (value, taken, full)) :
    follow (n + 1) acc (b :: rest) = (value, taken + 1, full) := by
  have hcont : cont b = some (b.toNat - 0x80) := cont_eq_some_iff.mpr ⟨hlow, hhigh, rfl⟩
  simp only [follow, hcont, h]

lemma of_follow_zero {acc value taken : Nat} {bytes : List UInt8}
    (h : follow 0 acc bytes = (value, taken, true)) :
    value = acc ∧ taken = 0 := by
  simp only [follow, Prod.mk.injEq, and_true] at h
  exact ⟨h.1.symm, h.2.symm⟩

/-- Where all continuation bytes are there, the first of them adds its bits and the
others follow. -/
lemma of_follow_succ {n acc value taken : Nat} {bytes : List UInt8}
    (h : follow (n + 1) acc bytes = (value, taken, true)) :
    ∃ b rest taken', bytes = b :: rest ∧ 0x80 ≤ b.toNat ∧ b.toNat < 0xC0 ∧
      taken = taken' + 1 ∧
      follow n (acc * 64 + (b.toNat - 0x80)) rest = (value, taken', true) := by
  cases bytes with
  | nil => cases h
  | cons b rest =>
    rw [follow] at h
    split at h
    · cases h
    · next v hv =>
      obtain ⟨hlow, hhigh, hvalue⟩ := cont_eq_some_iff.mp hv
      rcases hfollow : follow n (acc * 64 + v) rest with ⟨value', taken', full⟩
      rw [hfollow] at h
      cases h
      exact ⟨b, rest, taken', rfl, hlow, hhigh, rfl, hvalue ▸ hfollow⟩

/-- A byte below all lead bytes is a character of its own. -/
lemma sequenceAt_of_small {b : UInt8} (h : b.toNat < 0x80) (rest : List UInt8) :
    sequenceAt b rest = (some (Char.ofNat b.toNat), 0) := by
  have hlt : b < 0x80 := UInt8.lt_iff_toNat_lt.mpr h
  unfold sequenceAt
  rw [if_pos hlt]

/-- A lead and the bytes that have to follow it are one sequence. -/
lemma sequenceAt_of_lead {b lo hi second : UInt8} {n bits value taken : Nat}
    {more : List UInt8} (hlead : lead b = some (n, bits, lo, hi))
    (hlow : lo.toNat ≤ second.toNat) (hhigh : second.toNat ≤ hi.toNat)
    (hfollow : follow (n - 1) (bits * 64 + (second.toNat - 0x80)) more =
      (value, taken, true)) :
    sequenceAt b (second :: more) = (some (Char.ofNat value), taken + 1) := by
  have hlarge : ¬ b < 0x80 := by
    intro hlt
    have hlt : b.toNat < 0x80 := UInt8.lt_iff_toNat_lt.mp hlt
    have := lead_eq_some_iff.mp hlead
    omega
  have hcont : contIn lo hi second = some (second.toNat - 0x80) :=
    contIn_eq_some_iff.mpr ⟨hlow, hhigh, rfl⟩
  unfold sequenceAt
  rw [if_neg hlarge, hlead]
  simp only [hcont, hfollow, if_true]

/-- The bytes of a character are read as that character, whatever follows. -/
lemma Spells.sequenceAt_eq {c : Char} {b : UInt8} {tail : List UInt8}
    (h : Spells c.toNat (b :: tail)) (rest : List UInt8) :
    sequenceAt b (tail ++ rest) = (some c, tail.length) := by
  have hvalid := c.valid
  have hval : c.val.toNat = c.toNat := rfl
  simp only [UInt32.isValidChar, Nat.isValidChar, hval] at hvalid
  have hc := Char.ofNat_toNat c
  -- From here on only the number counts, with the gap of the surrogates in `hvalid`.
  generalize c.toNat = n at h hvalid hc
  cases h with
  | one small value =>
    rw [value] at small hc
    rw [sequenceAt_of_small small, hc]
    rfl
  | @two _ b₂ low high continued lead value =>
    have hlead : Utf8.lead b = some (1, b.toNat - 0xC0, 0x80, 0xBF) :=
      lead_eq_some_iff.mpr (.inl ⟨rfl, by omega, by omega, rfl, rfl, rfl⟩)
    have hfollow : follow 0 ((b.toNat - 0xC0) * 64 + (b₂.toNat - 0x80)) rest = (n, 0,
        true) := by rw [value]; rfl
    rw [List.cons_append, List.nil_append,
      sequenceAt_of_lead hlead continued.1 (Nat.le_of_lt_succ continued.2) hfollow, hc]
    rfl
  | @three _ b₂ b₃ low high continued lead value =>
    obtain ⟨hlow₂, hhigh₂, hlow₃, hhigh₃⟩ := continued
    obtain ⟨lo, hi, hlead⟩ : ∃ lo hi, Utf8.lead b = some (2, b.toNat - 0xE0, lo, hi) := by
      refine ⟨if b.toNat = 0xE0 then 0xA0 else 0x80, if b.toNat = 0xED then
        0x9F else 0xBF, ?_⟩
      refine lead_eq_some_iff.mpr
        (.inr (.inl ⟨rfl, by omega, by omega, rfl, ?_, ?_, ?_, ?_⟩)) <;>
        intro h <;> simp [h]
    have hbounds := lead_eq_some_iff.mp hlead
    have hfollow : follow 1 ((b.toNat - 0xE0) * 64 + (b₂.toNat - 0x80))
        (b₃ :: rest) = (n, 1, true) :=
      follow_cons hlow₃ hhigh₃ (by rw [value]; rfl)
    rw [List.cons_append, List.cons_append, List.nil_append,
      sequenceAt_of_lead hlead (by omega) (by omega) hfollow, hc]
    rfl
  | @four _ b₂ b₃ b₄ low high continued lead value =>
    obtain ⟨hlow₂, hhigh₂, hlow₃, hhigh₃, hlow₄, hhigh₄⟩ := continued
    obtain ⟨lo, hi, hlead⟩ : ∃ lo hi, Utf8.lead b = some (3, b.toNat - 0xF0, lo, hi) := by
      refine ⟨if b.toNat = 0xF0 then 0x90 else 0x80, if b.toNat = 0xF4 then
        0x8F else 0xBF, ?_⟩
      refine lead_eq_some_iff.mpr
        (.inr (.inr ⟨rfl, by omega, by omega, rfl, ?_, ?_, ?_, ?_⟩)) <;>
        intro h <;> simp [h]
    have hbounds := lead_eq_some_iff.mp hlead
    have hfollow : follow 2 ((b.toNat - 0xF0) * 64 + (b₂.toNat - 0x80))
        (b₃ :: b₄ :: rest) = (n, 2, true) :=
      follow_cons hlow₃ hhigh₃ (follow_cons hlow₄ hhigh₄ (by rw [value]; rfl))
    rw [List.cons_append, List.cons_append, List.cons_append, List.nil_append,
      sequenceAt_of_lead hlead (by omega) (by omega) hfollow, hc]
    rfl

/-- Whatever is read as a character is the bytes of that character. -/
lemma spells_of_sequenceAt {b : UInt8} {rest : List UInt8} {c : Char} {used : Nat}
    (h : sequenceAt b rest = (some c, used)) :
    ∃ tail more, rest = tail ++ more ∧ used = tail.length ∧ Spells c.toNat (b :: tail) := by
  have hchar : ∀ n, n < 0xD800 ∨ (0xDFFF < n ∧ n < 0x110000) →
      (Char.ofNat n).toNat = n := by
    intro n hn
    unfold Char.ofNat
    rw [dif_pos hn]
    rfl
  unfold sequenceAt at h
  split at h
  · next hlt =>
    have hlt : b.toNat < 0x80 := UInt8.lt_iff_toNat_lt.mp hlt
    cases h
    exact ⟨[], rest, rfl, rfl, .one (by rw [hchar _ (by omega)]; exact hlt)
      (hchar _ (by omega))⟩
  · split at h
    · cases h
    · cases h
    · next n bits lo hi second more hlead =>
      split at h
      · cases h
      · next v hv =>
        obtain ⟨hlow, hhigh, hvalue⟩ := contIn_eq_some_iff.mp hv
        rcases hfollow : follow (n - 1) (bits * 64 + v) more with ⟨value, taken, full⟩
        rw [hfollow] at h
        cases full with
        | false => cases h
        | true =>
          cases h
          -- The bounds of the second byte keep out small numbers in long forms,
          -- surrogates and numbers too large.
          obtain ⟨rfl, hlead⟩ | ⟨rfl, hlead⟩ | ⟨rfl, hlead⟩ := lead_eq_some_iff.mp hlead
          · obtain ⟨hvalue', rfl⟩ := of_follow_zero hfollow
            refine ⟨[second], more, rfl, rfl, .two ?_ ?_ ?_ ?_ ?_⟩ <;>
              (try rw [hchar _ (by omega)]) <;> omega
          · obtain ⟨b₃, more, taken, rfl, hlow₃, hhigh₃, rfl, hfollow₃⟩ :=
              of_follow_succ hfollow
            obtain ⟨hvalue', rfl⟩ := of_follow_zero hfollow₃
            refine ⟨[second, b₃], more, rfl, rfl, .three ?_ ?_ ?_ ?_ ?_⟩ <;>
              (try rw [hchar _ (by omega)]) <;> omega
          · obtain ⟨b₃, more, taken, rfl, hlow₃, hhigh₃, rfl, hfollow₃⟩ :=
              of_follow_succ hfollow
            obtain ⟨b₄, more, taken, rfl, hlow₄, hhigh₄, rfl, hfollow₄⟩ :=
              of_follow_succ hfollow₃
            obtain ⟨hvalue', rfl⟩ := of_follow_zero hfollow₄
            refine ⟨[second, b₃, b₄], more, rfl, rfl, .four ?_ ?_ ?_ ?_ ?_⟩ <;>
              (try rw [hchar _ (by omega)]) <;> omega

lemma pieces_skip (tail more : List UInt8) :
    pieces tail.length (tail ++ more) = pieces 0 more := by
  induction tail with
  | nil => rfl
  | cons b tail ih => exact ih

/-- The bytes of a character are one piece. -/
lemma pieces_cons_of_spells {c : Char} {b : UInt8} {tail : List UInt8}
    (h : Spells c.toNat (b :: tail)) (more : List UInt8) :
    pieces 0 (b :: (tail ++ more)) = some c :: pieces 0 more := by
  rw [pieces, h.sequenceAt_eq, ← pieces_skip tail more]

/-- So the bytes of a text are as many pieces as it has characters. -/
lemma pieces_flatMap (cs : List Char) :
    pieces 0 (cs.flatMap String.utf8EncodeChar) = cs.map some := by
  induction cs with
  | nil => rfl
  | cons c cs ih =>
    have hspells := spells_utf8EncodeChar c
    rw [List.flatMap_cons, List.map_cons, ← ih]
    cases hbytes : String.utf8EncodeChar c with
    | nil => exact absurd hbytes String.utf8EncodeChar_ne_nil
    | cons b tail =>
      rw [hbytes] at hspells
      exact pieces_cons_of_spells hspells _

/-- Bytes of which every piece is a character are the bytes of these characters. -/
lemma eq_flatMap_of_pieces {bytes : List UInt8} {cs : List Char}
    (h : pieces 0 bytes = cs.map some) :
    bytes = cs.flatMap String.utf8EncodeChar := by
  induction cs generalizing bytes with
  | nil =>
    cases bytes with
    | nil => rfl
    | cons b rest => cases h
  | cons c cs ih =>
    cases bytes with
    | nil => cases h
    | cons b rest =>
      rcases hread : sequenceAt b rest with ⟨first, used⟩
      rw [pieces, hread, List.map_cons] at h
      obtain ⟨rfl, hpieces⟩ := List.cons.inj h
      obtain ⟨tail, more, rfl, rfl, hspells⟩ := spells_of_sequenceAt hread
      rw [pieces_skip] at hpieces
      rw [List.flatMap_cons, (spells_utf8EncodeChar c).unique hspells, ← ih hpieces]
      rfl

lemma mapM_id_eq_some_iff {α : Type} {xs : List (Option α)} {ys : List α} :
    xs.mapM id = some ys ↔ xs = ys.map some := by
  induction xs generalizing ys with
  | nil => cases ys <;> simp
  | cons x xs ih =>
    cases x with
    | none => cases ys <;> simp
    | some x =>
      rw [List.mapM_cons]
      show ((xs.mapM id).bind fun rest => some (x :: rest)) = some ys ↔ _
      rw [Option.bind_eq_some_iff]
      cases ys with
      | nil => simp
      | cons y ys =>
        rw [List.map_cons, List.cons.injEq, and_comm]
        simp [ih]

/-- Bytes are read strictly as a text exactly if they are the bytes of that text. -/
theorem decode?_eq_some_iff {bytes : List UInt8} {s : String} :
    decode? bytes = some s ↔ bytes = encode s := by
  rw [decode?, Option.map_eq_some_iff, encode_eq]
  constructor
  · rintro ⟨cs, hcs, rfl⟩
    rw [String.toList_ofList]
    exact eq_flatMap_of_pieces (mapM_id_eq_some_iff.mp hcs)
  · rintro rfl
    exact ⟨s.toList, mapM_id_eq_some_iff.mpr (pieces_flatMap _), String.ofList_toList⟩

/-- A text can be told from its bytes. -/
theorem encode_inj {s t : String} (h : encode s = encode t) : s = t :=
  Option.some.inj ((decode?_eq_some_iff.mpr rfl).symm.trans (decode?_eq_some_iff.mpr h))

end Workplan.Text.Utf8
