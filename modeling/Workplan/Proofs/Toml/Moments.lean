import Mathlib.Tactic.Lemma
import Workplan.Proofs.Toml.Numbers

/-!
# Dates and times

Dates and times are read as the grammar writes them.  A blank between a date and
a time is no end of the date if a time follows, which nothing that may stand
behind a value does.
-/

namespace Workplan.Toml.Grammar

open Reader

section
variable {cs cs₁ rest : List Char}

/-- The reader finds a number of so many digits exactly where the grammar does. -/
lemma field_eq_some_iff {n low high v : Nat} :
    field n low high cs = some (v, rest) ↔ Field n low high cs v rest := by
  have hfield : field n low high cs =
      if (cs.take n).length = n ∧ (cs.take n).all Char.isDigit then
        (Workplan.Text.natOfDigits? 10 (cs.take n)).bind fun v =>
          if low ≤ v ∧ v ≤ high then some (v, cs.drop n) else none
      else none := rfl
  rw [hfield]
  constructor
  · intro h
    split at h
    · next hds =>
      obtain ⟨v', hv, h⟩ := Option.bind_eq_some_iff.mp h
      split at h
      · next hbounds =>
        cases h
        have hwritten : Field n low high (cs.take n ++ cs.drop n) v (cs.drop n) :=
          .digits hds.1 (List.all_eq_true.mp hds.2) hv hbounds.1 hbounds.2
        rwa [List.take_append_drop] at hwritten
      · cases h
    · cases h
  · rintro ⟨hlength, hds, hv, hlow, hhigh⟩
    next ds =>
    rw [List.take_left' hlength, if_pos ⟨hlength, List.all_eq_true.mpr hds⟩,
      hv, Option.bind_some, if_pos ⟨hlow, hhigh⟩, List.drop_left' hlength]

theorem sign_eq_some_iff {c : Char} : sign c cs = some rest ↔ cs = c :: rest := by
  constructor
  · intro h
    unfold sign at h
    split at h
    · split at h
      · next heq => cases h; rw [heq]
      · cases h
    · cases h
  · rintro rfl
    exact if_pos rfl

/-- A number with a character behind it. -/
lemma field_sign_iff {n low high v : Nat} {c : Char} :
    (field n low high cs = some (v, cs₁) ∧ sign c cs₁ = some rest) ↔
      (Field n low high cs v (c :: rest) ∧ cs₁ = c :: rest) := by
  rw [field_eq_some_iff, sign_eq_some_iff]
  constructor
  · rintro ⟨hfield, rfl⟩
    exact ⟨hfield, rfl⟩
  · rintro ⟨hfield, rfl⟩
    exact ⟨hfield, rfl⟩

/-- Dates are read exactly as the grammar has them. -/
lemma date_eq_some_iff : date cs = some rest ↔ Date cs rest := by
  constructor
  · intro h
    obtain ⟨⟨year, cs₁⟩, hyear, h⟩ := Option.bind_eq_some_iff.mp h
    obtain ⟨cs₂, hsign, h⟩ := Option.bind_eq_some_iff.mp h
    obtain ⟨⟨month, cs₃⟩, hmonth, h⟩ := Option.bind_eq_some_iff.mp h
    obtain ⟨cs₄, hsign₁, h⟩ := Option.bind_eq_some_iff.mp h
    obtain ⟨⟨day, cs₅⟩, hday, h⟩ := Option.bind_eq_some_iff.mp h
    cases h
    exact .fields (field_sign_iff.mp ⟨hyear, hsign⟩).1
      (field_sign_iff.mp ⟨hmonth, hsign₁⟩).1 (field_eq_some_iff.mp hday)
  · rintro ⟨hyear, hmonth, hday⟩
    unfold date
    simp only [field_eq_some_iff.mpr hyear, field_eq_some_iff.mpr hmonth,
      field_eq_some_iff.mpr hday, sign, if_true, bind, Option.bind_some]

lemma clock_eq_some_iff : clock cs = some rest ↔ Clock cs rest := by
  constructor
  · intro h
    obtain ⟨⟨hour, cs₁⟩, hhour, h⟩ := Option.bind_eq_some_iff.mp h
    obtain ⟨cs₂, hsign, h⟩ := Option.bind_eq_some_iff.mp h
    obtain ⟨⟨minute, cs₃⟩, hminute, h⟩ := Option.bind_eq_some_iff.mp h
    obtain ⟨cs₄, hsign₁, h⟩ := Option.bind_eq_some_iff.mp h
    obtain ⟨⟨second, cs₅⟩, hsecond, h⟩ := Option.bind_eq_some_iff.mp h
    cases h
    exact .fields (field_sign_iff.mp ⟨hhour, hsign⟩).1
      (field_sign_iff.mp ⟨hminute, hsign₁⟩).1 (field_eq_some_iff.mp hsecond)
  · rintro ⟨hhour, hminute, hsecond⟩
    unfold clock
    simp only [field_eq_some_iff.mpr hhour, field_eq_some_iff.mpr hminute,
      field_eq_some_iff.mpr hsecond, sign, if_true, bind, Option.bind_some]

lemma time_sound (h : time cs = some rest) : Time cs rest := by
  obtain ⟨cs₁, hclock, h⟩ := Option.bind_eq_some_iff.mp h
  have hclock := clock_eq_some_iff.mp hclock
  split at h
  · next rest' _ =>
    split at h
    · next hhead =>
      cases h
      refine .fraction hclock (run_takeWhile Char.isDigit rest') fun hnil => ?_
      have hempty := List.head?_takeWhile (p := Char.isDigit) (l := rest')
      rw [hnil] at hempty
      cases rest' with
      | nil => cases hhead
      | cons c more =>
        have hdigit : c.isDigit = true := hhead
        rw [List.head?_cons, Option.filter_some, if_pos hdigit] at hempty
        cases hempty
    · cases h
  · cases h
    exact .whole hclock

/-- A time is read up to its end, if no digit or point continues it. -/
lemma Time.time_eq (h : Time cs rest)
    (hrest : ∀ c ∈ rest.head?, (c.isDigit || c == '.') = false) :
    time cs = some rest := by
  unfold time
  cases h with
  | whole hclock =>
    rw [clock_eq_some_iff.mpr hclock, Option.bind_eq_bind, Option.bind_some]
    split
    · cases hrest '.' rfl
    · rfl
  | @fraction cs₁ ds _ hclock hrun hne =>
    rw [clock_eq_some_iff.mpr hclock]
    show (if cs₁.head?.any Char.isDigit then some (cs₁.dropWhile Char.isDigit)
      else none) = _
    have hdigit : ∀ c ∈ rest.head?, c.isDigit = false :=
      fun c hc => (Bool.or_eq_false_iff.mp (hrest c hc)).1
    rw [hrun.dropWhile_eq hdigit, if_pos]
    obtain ⟨c, ds, rfl⟩ := List.exists_cons_of_ne_nil hne
    obtain ⟨rfl, hds⟩ := hrun
    exact hds c List.mem_cons_self

/-- Behind the sign of an offset there are hours and minutes. -/
lemma offset_shifted {c : Char} (hc : c = '+' ∨ c = '-') (cs : List Char) :
    offset (c :: cs) = (field 2 0 23 cs).bind fun x => (sign ':' x.2).bind fun cs =>
      (field 2 0 59 cs).bind fun x => some x.2 := by
  rcases hc with rfl | rfl <;> rfl

lemma offset_eq_some_iff : offset cs = some rest ↔ Offset cs rest := by
  constructor
  · intro h
    unfold offset at h
    split at h
    · cases h; exact .utc (Or.inl rfl)
    · cases h; exact .utc (Or.inr rfl)
    · split at h
      · next hc =>
        obtain ⟨⟨hour, cs₁⟩, hhour, h⟩ := Option.bind_eq_some_iff.mp h
        obtain ⟨cs₂, hsign, h⟩ := Option.bind_eq_some_iff.mp h
        obtain ⟨⟨minute, cs₃⟩, hminute, h⟩ := Option.bind_eq_some_iff.mp h
        cases h
        exact .shifted hc (field_sign_iff.mp ⟨hhour, hsign⟩).1
          (field_eq_some_iff.mp hminute)
      · cases h
    · cases h
  · intro h
    cases h with
    | utc hc => rcases hc with rfl | rfl <;> rfl
    | shifted hc hhour hminute =>
      simp only [offset_shifted hc, field_eq_some_iff.mpr hhour,
        field_eq_some_iff.mpr hminute, sign, if_true, Option.bind_some]

/-! ## Where they start and end -/

lemma Field.suffix {n low high v : Nat} (h : Field n low high cs v rest) :
    rest <:+ cs := by
  cases h with
  | digits => exact List.suffix_append _ _

lemma Field.suffix_behind {n low high v : Nat} {c : Char}
    (h : Field n low high cs v (c :: rest)) : rest <:+ cs :=
  (List.suffix_cons c rest).trans h.suffix

lemma Date.suffix (h : Date cs rest) : rest <:+ cs := by
  cases h with
  | fields hyear hmonth hday =>
    exact hday.suffix.trans (hmonth.suffix_behind.trans hyear.suffix_behind)

lemma Clock.suffix (h : Clock cs rest) : rest <:+ cs := by
  cases h with
  | fields hhour hminute hsecond =>
    exact hsecond.suffix.trans (hminute.suffix_behind.trans hhour.suffix_behind)

lemma Time.suffix (h : Time cs rest) : rest <:+ cs := by
  cases h with
  | whole hclock => exact hclock.suffix
  | fraction hclock hrun =>
    obtain ⟨rfl, -⟩ := hrun
    exact (List.suffix_append _ _).trans ((List.suffix_cons _ _).trans hclock.suffix)

lemma Offset.suffix (h : Offset cs rest) : rest <:+ cs := by
  cases h with
  | utc => exact List.suffix_cons _ _
  | shifted _ hhour hminute =>
    exact hminute.suffix.trans (hhour.suffix_behind.trans (List.suffix_cons _ _))

/-- What is left behind a date or a time is the end of what there was. -/
lemma Moment.suffix (h : Moment cs rest) : rest <:+ cs := by
  cases h with
  | date hdate => exact hdate.suffix
  | time htime => exact htime.suffix
  | both hdate _ htime =>
    exact htime.suffix.trans ((List.suffix_cons _ _).trans hdate.suffix)
  | offset hdate _ htime hoffset =>
    exact hoffset.suffix.trans
      (htime.suffix.trans ((List.suffix_cons _ _).trans hdate.suffix))

/-- A number with a character behind it that is no digit ends the run of digits. -/
lemma Field.run {n low high v : Nat} {c : Char} (h : Field n low high cs v (c :: rest))
    (hc : c.isDigit = false) :
    cs.takeWhile Char.isDigit = cs.take n ∧ (cs.takeWhile Char.isDigit).length = n ∧
      (cs.drop n).head? = some c := by
  cases h with
  | @digits ds _ _ hlength hds =>
    have hrun : Run Char.isDigit (ds ++ c :: rest) ds (c :: rest) := ⟨rfl, hds⟩
    have hend : ∀ c' ∈ (c :: rest).head?, c'.isDigit = false := fun c' hc' => by
      cases hc'; exact hc
    rw [hrun.takeWhile_eq hend, List.take_left' hlength, List.drop_left' hlength]
    exact ⟨rfl, hlength, rfl⟩

/-- A date begins with four digits and a dash. -/
lemma Date.head (h : Date cs rest) :
    (cs.takeWhile Char.isDigit).length = 4 ∧ (cs.drop 4).head? = some '-' := by
  cases h with
  | fields hyear => exact (hyear.run rfl).2

/-- A time begins with two digits and a colon. -/
lemma Time.head (h : Time cs rest) :
    (cs.takeWhile Char.isDigit).length = 2 ∧ (cs.drop 2).head? = some ':' := by
  have hclock : ∀ {rest : List Char}, Clock cs rest →
      (cs.takeWhile Char.isDigit).length = 2 ∧ (cs.drop 2).head? = some ':' := by
    intro rest h
    cases h with
    | fields hhour => exact (hhour.run rfl).2
  cases h with
  | whole h => exact hclock h
  | fraction h => exact hclock h

/-- No time starts as a date does. -/
lemma Time.not_date (h : Time cs rest) : date cs = none := by
  cases hdate : date cs with
  | none => rfl
  | some rest' =>
    have hlength := (date_eq_some_iff.mp hdate).head.1
    rw [h.head.1] at hlength
    cases hlength

/-- By these first characters the reader knows a date or a time. -/
theorem Moment.startsMoment_eq (h : Moment cs rest) : startsMoment cs = true := by
  have hdate : ∀ {rest : List Char}, Date cs rest → startsMoment cs = true := by
    intro rest h
    unfold startsMoment
    rw [h.head.1, h.head.2]
    rfl
  cases h with
  | date h => exact hdate h
  | time h =>
    unfold startsMoment
    rw [h.head.1, h.head.2]
    rfl
  | both h => exact hdate h
  | offset h => exact hdate h

/-- Whatever may stand behind a value starts no time. -/
lemma Ends.not_time (h : Ends cs) : time cs = none := by
  cases htime : time cs with
  | none => rfl
  | some rest =>
    have hlength := (time_sound htime).head.1
    have hnone : cs.takeWhile Char.isDigit = [] := by
      cases cs with
      | nil => rfl
      | cons c more =>
        refine List.takeWhile_cons_of_neg ?_
        rw [h.not (p := Char.isDigit) (by decide) c rfl]
        exact Bool.false_ne_true
    rw [hnone] at hlength
    cases hlength

/-! ## Moments -/

/-- What the reader skips as a date or a time is one. -/
lemma skipMoment_sound (h : skipMoment cs = some rest) : Moment cs rest := by
  have htimed : ∀ {c : Char} {cs₁ : List Char}, Date cs (c :: cs₁) →
      c = 'T' ∨ c = 't' ∨ c = ' ' →
      offsetTime cs₁ = some rest → Moment cs rest := by
    intro c cs₁ hdate hc h
    obtain ⟨cs₂, htime, h⟩ := Option.map_eq_some_iff.mp h
    cases hoffset : offset cs₂ with
    | none =>
      rw [hoffset] at h
      cases h
      exact .both hdate hc (time_sound htime)
    | some rest' =>
      rw [hoffset] at h
      cases h
      exact .offset hdate hc (time_sound htime) (offset_eq_some_iff.mp hoffset)
  unfold skipMoment at h
  split at h
  · exact .time (time_sound h)
  · next rest₁ hdate =>
    have hdate := date_eq_some_iff.mp hdate
    split at h
    · exact htimed hdate (Or.inl rfl) h
    · exact htimed hdate (Or.inr (Or.inl rfl)) h
    · next more _ =>
      -- A blank stands in front of a time, or belongs to what follows the date.
      cases htime : offsetTime more with
      | none =>
        rw [htime] at h
        cases h
        exact .date hdate
      | some rest' =>
        rw [htime] at h
        cases h
        exact htimed hdate (Or.inr (Or.inr rfl)) htime
    · cases h
      exact .date hdate

/-- A time behind a date is read with it. -/
lemma skipMoment_eq_of_date {c : Char} (hdate : Date cs (c :: cs₁))
    (hc : c = 'T' ∨ c = 't' ∨ c = ' ') (htime : offsetTime cs₁ = some rest) :
    skipMoment cs = some rest := by
  unfold skipMoment
  rw [date_eq_some_iff.mpr hdate]
  rcases hc with rfl | rfl | rfl
  · exact htime
  · exact htime
  · show some ((offsetTime cs₁).getD _) = _
    rw [htime]
    rfl

/-- An offset does not continue the digits of a time. -/
lemma Offset.head (h : Offset cs rest) :
    ∀ c ∈ cs.head?, (c.isDigit || c == '.') = false := by
  intro c hc
  cases h with
  | utc h => cases hc; rcases h with rfl | rfl <;> rfl
  | shifted h => cases hc; rcases h with rfl | rfl <;> rfl

/-- Whatever may stand behind a value starts no offset. -/
lemma Ends.not_offset (h : Ends cs) : offset cs = none := by
  have hnot := h.not (p := fun c => c == 'Z' || c == 'z' || c == '+' || c == '-')
    (by decide)
  cases hoffset : offset cs with
  | none => rfl
  | some rest =>
    cases offset_eq_some_iff.mp hoffset with
    | utc hc => rcases hc with rfl | rfl <;> cases hnot _ rfl
    | shifted hc => rcases hc with rfl | rfl <;> cases hnot _ rfl

/-- A date or a time is skipped up to its end, if it ends there as a value. -/
lemma Moment.skipMoment_eq (h : Moment cs rest) (hrest : Ends rest) :
    skipMoment cs = some rest := by
  have hends := hrest.not (p := fun c => c.isDigit || c == '.') (by decide)
  cases h with
  | date hdate =>
    unfold skipMoment
    rw [date_eq_some_iff.mpr hdate]
    dsimp only
    split
    · cases hrest.not (p := (· == 'T')) (by decide) 'T' rfl
    · cases hrest.not (p := (· == 't')) (by decide) 't' rfl
    · next more =>
      -- Blanks behind the date, but no time.
      have hmore : Ends more := hrest
      unfold offsetTime
      rw [hmore.not_time]
      rfl
    · rfl
  | time htime =>
    unfold skipMoment
    rw [htime.not_date]
    exact htime.time_eq hends
  | both hdate hc htime =>
    refine skipMoment_eq_of_date hdate hc ?_
    unfold offsetTime
    rw [htime.time_eq hends, Option.map_some, hrest.not_offset]
    rfl
  | offset hdate hc htime hoffset =>
    refine skipMoment_eq_of_date hdate hc ?_
    unfold offsetTime
    rw [htime.time_eq hoffset.head, Option.map_some, offset_eq_some_iff.mpr hoffset]
    rfl

/-- What is read as a date or a time is kept as it is written. -/
theorem moment_sound {item : Item} (h : moment cs = some (item, rest)) :
    ∃ written, cs = written ++ rest ∧ item = .moment (String.ofList written) ∧
      Moment cs rest := by
  obtain ⟨rest', hskip, h⟩ := Option.map_eq_some_iff.mp h
  cases h
  have hmoment := skipMoment_sound hskip
  obtain ⟨written, rfl⟩ := hmoment.suffix
  refine ⟨written, rfl, ?_, hmoment⟩
  rw [List.length_append, Nat.add_sub_cancel, List.take_left]

/-- A date or a time is read up to its end, as it is written. -/
theorem Moment.moment_eq {written : List Char} (h : Moment (written ++ rest) rest)
    (hrest : Ends rest) :
    moment (written ++ rest) = some (.moment (String.ofList written), rest) := by
  unfold Reader.moment
  rw [h.skipMoment_eq hrest, Option.map_some, List.length_append, Nat.add_sub_cancel,
    List.take_left]

lemma Date.length_lt (h : Date cs rest) : rest.length < cs.length := by
  cases h with
  | fields hyear hmonth hday =>
    have := hday.suffix.length_le
    have := hmonth.suffix_behind.length_le
    have := hyear.suffix.length_le
    rw [List.length_cons] at this
    omega

lemma Time.length_lt (h : Time cs rest) : rest.length < cs.length := by
  have hclock : ∀ {rest : List Char}, Clock cs rest → rest.length < cs.length := by
    rintro rest ⟨hhour, hminute, hsecond⟩
    have := hsecond.suffix.length_le
    have := hminute.suffix_behind.length_le
    have := hhour.suffix.length_le
    rw [List.length_cons] at this
    omega
  cases h with
  | whole h => exact hclock h
  | fraction h hrun =>
    have := hclock h
    have := hrun.length_eq
    rw [List.length_cons] at *
    omega

theorem Moment.length_lt (h : Moment cs rest) : rest.length < cs.length := by
  cases h with
  | date hdate => exact hdate.length_lt
  | time htime => exact htime.length_lt
  | both hdate _ htime =>
    exact Nat.lt_trans htime.length_lt (Nat.lt_of_succ_lt hdate.length_lt)
  | offset hdate _ htime hoffset =>
    exact Nat.lt_of_le_of_lt hoffset.suffix.length_le
      (Nat.lt_trans htime.length_lt (Nat.lt_of_succ_lt hdate.length_lt))

/-! ## Numbers are no moments -/

/-- Behind the first digits of a number stands an underscore or what ends the number. -/
lemma Digits.dropWhile_head {ds : List Char} (h : Digits Char.isDigit cs ds rest)
    (hrest : EndsDigits rest) :
    ∀ c ∈ (cs.dropWhile Char.isDigit).head?, c = '_' ∨ c ∈ rest.head? := by
  induction h with
  | @last c rest hc =>
    rw [List.dropWhile_cons_of_pos hc]
    cases rest with
    | nil => exact fun c' hc' => by cases hc'
    | cons d rest =>
      have hd : d.isDigit = false := (Bool.or_eq_false_iff.mp (hrest d rfl)).1
      rw [List.dropWhile_cons_of_neg (by rw [hd]; exact Bool.false_ne_true)]
      exact fun c' hc' => Or.inr hc'
  | next hc _ ih =>
    rw [List.dropWhile_cons_of_pos hc]
    exact ih hrest
  | spaced hc _ ih =>
    rw [List.dropWhile_cons_of_pos hc]
    intro c' hc'
    cases hc'
    exact Or.inl rfl

/-- What starts with no digit starts no moment. -/
theorem startsMoment_cons {c : Char} (hc : c.isDigit = false) (more : List Char) :
    startsMoment (c :: more) = false := by
  unfold startsMoment
  rw [List.takeWhile_cons_of_neg (by rw [hc]; exact Bool.false_ne_true)]
  rfl

/-- What has neither a minus sign nor a colon behind its first digits
starts no moment. -/
lemma startsMoment_of_dropWhile
    (h : ∀ c ∈ (cs.dropWhile Char.isDigit).head?, c ≠ '-' ∧ c ≠ ':') :
    startsMoment cs = false := by
  have hdrop : cs.drop (cs.takeWhile Char.isDigit).length = cs.dropWhile Char.isDigit :=
    (run_takeWhile _ cs).drop_eq
  unfold startsMoment
  rw [Bool.or_eq_false_iff, Bool.and_eq_false_iff, Bool.and_eq_false_iff,
    beq_eq_false_iff_ne, beq_eq_false_iff_ne, beq_eq_false_iff_ne, beq_eq_false_iff_ne]
  refine ⟨Decidable.or_iff_not_imp_left.mpr fun hn hhead => ?_,
    Decidable.or_iff_not_imp_left.mpr fun hn hhead => ?_⟩
  · rw [← Decidable.not_not.mp hn, hdrop] at hhead
    exact (h '-' hhead).1 rfl
  · rw [← Decidable.not_not.mp hn, hdrop] at hhead
    exact (h ':' hhead).2 rfl

/-- No number begins like a date or a time. -/
theorem Number.startsMoment_eq {item : Item} (h : Number cs item rest)
    (hrest : Ends rest) :
    startsMoment cs = false := by
  -- Behind a sign stands no moment, and neither in front of a special number.
  have hsigned : ∀ {negative : Bool} {c : Char} {more : List Char}, Sign cs negative
      (c :: more) → c.isDigit = false →
      startsMoment cs = false := by
    intro negative c more hsign hc
    cases hsign with
    | none => exact startsMoment_cons hc more
    | plus => exact startsMoment_cons rfl _
    | minus => exact startsMoment_cons rfl _
  obtain ⟨negative, cs₁, ds, cs₂, hsign, hwhole, hends, -⟩ |
    ⟨letter, base, isDigit, cs₁, rfl, hbase, -⟩ |
    ⟨negative, hsign, -⟩ | ⟨negative, hsign, -⟩ := h.form hrest
  · cases hsign with
    | plus => exact startsMoment_cons rfl _
    | minus => exact startsMoment_cons rfl _
    | none =>
      refine startsMoment_of_dropWhile fun c hc => ?_
      rcases hwhole.1.dropWhile_head hends.endsDigits c hc with rfl | hmem
      · decide
      · exact (by decide : ∀ c ∈ '.' :: 'e' :: 'E' :: breakers, c ≠ '-' ∧ c ≠ ':') c
          (hends c hmem)
  · refine startsMoment_of_dropWhile fun c hc => ?_
    cases hbase <;> cases hc <;> decide
  · exact hsigned hsign rfl
  · exact hsigned hsign rfl

end

end Workplan.Toml.Grammar
