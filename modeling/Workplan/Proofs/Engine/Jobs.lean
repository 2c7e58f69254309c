import Mathlib.Tactic.Lemma
import Workplan.Proofs.Engine.Dialogue

/-!
# Started calls

The calls that fan-outs have started stand in one table.  The table only grows, a started
call keeps its place, its executor and its input, it only comes to an end that it could
come to before, and once it has ended it stays as it ended (`Kept`).

While a run collects the results of a fan-out, what it holds agrees with that table: each
slot is either still empty or holds the value that the call of the same position ended
with, and a run that waits has an empty slot (`Coherent`).
-/

namespace Workplan.World

/-! ## The table of started calls -/

/-- A change that keeps all started calls: their places, executors and inputs, and how
they ended. -/
def Kept (w w' : World) : Prop :=
  ∀ (n : Nat) (job : Job), w.jobs[n]? = some job →
    ∃ a, w'.jobs[n]? = some { job with activity := a } ∧
      (∀ r, job.activity = .ended r → a = .ended r) ∧ ∀ r, a.EndsIn r →
        job.activity.EndsIn r

theorem Kept.of_jobs_eq {w w' : World} (h : w'.jobs = w.jobs) : Kept w w' :=
  fun _ job hjob => ⟨job.activity, h ▸ hjob, fun _ hr => hr, fun _ hr => hr⟩

lemma Kept.trans {w₁ w₂ w₃ : World} (h₁ : Kept w₁ w₂) (h₂ : Kept w₂ w₃) : Kept w₁ w₃ := by
  intro n job hjob
  obtain ⟨a, ha, hend, hmay⟩ := h₁ n job hjob
  obtain ⟨a', ha', hend', hmay'⟩ := h₂ n _ ha
  exact ⟨a', ha', fun r hr => hend' r (hend r hr), fun r hr => hmay r (hmay' r hr)⟩

/-- A call that has ended stays ended. -/
theorem Kept.jobEnd? {w w' : World} (h : Kept w w') {n : Nat} {r : CallEnd}
    (hr : w.jobEnd? n = some r) : w'.jobEnd? n = some r := by
  unfold World.jobEnd? at hr ⊢
  split at hr
  · next e input r' hjob =>
    obtain ⟨a, ha, hend, -⟩ := h n _ hjob
    obtain rfl := hend r' rfl
    rw [ha]
    exact hr
  · cases hr

/-- Calls do not get lost. -/
lemma Kept.length_le {w w' : World} (h : Kept w w') : w.jobs.length ≤ w'.jobs.length := by
  rcases Nat.eq_zero_or_pos w.jobs.length with h0 | hpos
  · omega
  · have hlast : w.jobs.length - 1 < w.jobs.length := by omega
    obtain ⟨a, ha, -⟩ := h _ _ (List.getElem?_eq_getElem hlast)
    have := (List.getElem?_eq_some_iff.mp ha).1
    omega

/-- A call may go on, if it then ends only in what it could end in before. -/
lemma setActivity_kept {w : World} {n : Nat} {job : Job} {a : Activity}
    (hjob : w.jobs[n]? = some job) (hopen : job.activity.isEnded = false)
    (hmay : ∀ r, a.EndsIn r → job.activity.EndsIn r) :
    Kept w (w.setActivity n job a) := by
  intro m other hother
  by_cases hm : n = m
  · subst hm
    obtain rfl := Option.some.inj (hjob.symm.trans hother)
    have hn : n < w.jobs.length := (List.getElem?_eq_some_iff.mp hjob).1
    refine ⟨a, by simp [setActivity, hn], fun r hr => ?_, hmay⟩
    rw [hr] at hopen
    cases hopen
  · exact ⟨other.activity, by simpa [setActivity, List.getElem?_set_ne hm] using hother,
      fun _ hr => hr, fun _ hr => hr⟩

/-- New calls are put behind those that there are. -/
lemma start_kept (w : World) (cs : List (Executor × Json)) : Kept w (w.start cs) := by
  intro n job hjob
  have hn : n < w.jobs.length := (List.getElem?_eq_some_iff.mp hjob).1
  exact ⟨job.activity, by simpa [start, List.getElem?_append_left hn] using hjob,
    fun _ hr => hr, fun _ hr => hr⟩

/-- A move of the run keeps the started calls. -/
lemma RunMove.kept {w w' : World} {c : Choice} {x : Option Exchange}
    (h : RunMove w c x w') :
    Kept w w' := by
  cases h with
  | work hp => exact .of_jobs_eq (perform_jobs w _)
  | fanOut hp => exact (start_kept w _).trans (.of_jobs_eq rfl)
  | _ => exact .of_jobs_eq rfl

/-- Every choice keeps the started calls. -/
theorem take_kept {w w' : World} {c : Choice} (hloop : c ≠ .loop) (h : w.take c = some w') :
    Kept w w' := by
  rcases take_move hloop h with hmove | ⟨hout, -, -⟩
  · exact hmove.kept
  · cases take_outside hout h with
    | act hjob hadv =>
      obtain ⟨-, hjobs, hopen⟩ := advance_apart hadv
      exact (Kept.of_jobs_eq hjobs).trans
        (setActivity_kept (by rw [hjobs]; exact hjob) hopen fun r hr =>
          advance_endsIn hadv hr)
    | @exit n job hjob hawaits =>
      obtain ⟨e, input, activity⟩ := job
      obtain ⟨task, rfl⟩ := eq_waiting_of_awaitsProgram hawaits
      exact setActivity_kept hjob rfl fun r hr => hr
    | cancel | pass => exact .of_jobs_eq rfl

/-! ## Collecting results -/

@[simp] theorem complete?_nil : complete? [] = some [] := rfl

@[simp] theorem complete?_none (rest : List (Option Json)) :
    complete? (none :: rest) = none := rfl

@[simp] theorem complete?_some (v : Json) (rest : List (Option Json)) :
    complete? (some v :: rest) = (complete? rest).map (v :: ·) := by
  unfold complete?
  rw [List.mapM_cons]
  cases rest.mapM id <;> rfl

/-- The values are complete when every slot holds one. -/
theorem complete?_eq_some_iff {results : List (Option Json)} {values : List Json} :
    complete? results = some values ↔ results = values.map some := by
  induction results generalizing values with
  | nil => cases values <;> simp
  | cons slot rest ih =>
    cases slot with
    | none => cases values <;> simp
    | some v =>
      cases values with
      | nil => simp
      | cons v' values =>
        simp only [complete?_some, Option.map_eq_some_iff, ih]
        grind

/-- Values that are not complete leave a slot empty. -/
theorem exists_slot_of_complete?_eq_none {results : List (Option Json)}
    (h : complete? results = none) : ∃ i : Nat, results[i]? = some none := by
  induction results with
  | nil => cases h
  | cons slot rest ih =>
    cases slot with
    | none => exact ⟨0, rfl⟩
    | some v =>
      obtain ⟨i, hi⟩ := ih (by simpa using h)
      exact ⟨i + 1, by simpa using hi⟩

/-- What a run has collected agrees with the started calls, the first of which has the
given number. -/
structure Coherent (w : World) (awake : Bool) (first : Nat)
    (results : List (Option Json)) : Prop where
  bound : first + results.length ≤ w.jobs.length
  values : ∀ i v, results[i]? = some (some v) →
    w.jobEnd? (first + i) = some (.returned (.ok v))
  waits : awake = false → complete? results = none

/-- What a run waits for stays coherent while calls go on. -/
theorem Coherent.kept {w w' : World} {awake : Bool} {first : Nat}
    {results : List (Option Json)} (h : Coherent w awake first results) (hk : Kept w w') :
    Coherent w' awake first results where
  bound := Nat.le_trans h.bound hk.length_le
  values := fun i v hi => hk.jobEnd? (h.values i v hi)
  waits := h.waits

/-- A world in which the run in progress, if it is collecting, holds what its calls
ended with. -/
def IsCoherent (w : World) : Prop :=
  ∀ step awake first results rest, w.progress = .joining step awake first results rest →
    Coherent w awake first results

/-- A move of the run itself leaves it coherent. -/
lemma RunMove.isCoherent {w w' : World} {c : Choice} {x : Option Exchange}
    (h : RunMove w c x w') (hw : w.IsCoherent) : w'.IsCoherent := by
  intro step awake first results rest hp'
  cases h with
  | fanOut hp =>
    cases hp'
    refine ⟨by simp [start, goTo], fun i v hi => ?_, fun h => by cases h⟩
    rw [List.getElem?_map] at hi
    cases hc : (_ : List (Executor × Json))[i]? <;> rw [hc] at hi <;> cases hi
  | park hp hc =>
    cases hp'
    exact ⟨(hw _ _ _ _ _ hp).bound, (hw _ _ _ _ _ hp).values, fun _ => hc⟩
  | @collect _ _ _ results₀ _ call v hp hslot hlive hend =>
    cases hp'
    refine ⟨by rw [List.length_set]; exact (hw _ _ _ _ _ hp).bound, fun i v' hi => ?_,
      fun h => by cases h⟩
    by_cases hcall : call = i
    · subst hcall
      have hlt : call < results₀.length := (List.getElem?_eq_some_iff.mp hslot).1
      rw [List.getElem?_set_self hlt] at hi
      obtain rfl : v = v' := by simpa using hi
      exact hend
    · rw [List.getElem?_set_ne hcall] at hi
      exact (hw _ _ _ _ _ hp).values i v' hi
  | _ => cases hp'

/-- Every choice keeps what a run has collected in agreement with its calls. -/
theorem take_isCoherent {w w' : World} {c : Choice} (hloop : c ≠ .loop)
    (h : w.take c = some w') (hw : w.IsCoherent) : w'.IsCoherent := by
  rcases take_move hloop h with hmove | ⟨-, -, hapart⟩
  · exact hmove.isCoherent hw
  · intro step awake first results rest hp
    rw [hapart.progress] at hp
    exact (hw _ _ _ _ _ hp).kept (take_kept hloop h)

theorem follow_isCoherent {cs : List Choice} {w w' : World} (hloop : .loop ∉ cs)
    (h : w.follow cs = some w') (hw : w.IsCoherent) : w'.IsCoherent :=
  follow_preserves
    (fun _ hmem _ _ htake => take_isCoherent (ne_of_mem_of_not_mem hmem hloop) htake) h hw

end Workplan.World
