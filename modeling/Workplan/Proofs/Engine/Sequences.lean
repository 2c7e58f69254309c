import Mathlib.Tactic.Lemma
import Workplan.Proofs.Engine.Resemblance

/-!
# The algebra of sequence steps

Two laws for changing a plan without changing what it does: a sequence step may be cut
into two, and a success handler of a sequence step may be made its last executor
(`World.sequence_laws`).  The new plan *behaves like* the old one: whatever happens around
them, both runs make the same calls on the same inputs, and come to the same output or
failure, prompt and store.  Only what they report, and the number of steps, may differ.
-/

namespace Workplan

/-! ## Worlds that behave alike -/

/-- Whatever an uncancelled run in `w` does on a schedule, a run in `v` does as well, when
the same happens around it: it has the same dialogue, does the same in the same order, and
leaves the same world.  Where the one ends, the other ends with a result that `R` relates
to it, and where the one crashes, so does the other. -/
def World.Imitates (R : Except WorkflowError Outcome → Except WorkflowError Outcome →
    Prop) (v w : World) :
    Prop :=
  ∀ cs w', w.follow cs = some w' → w'.isCancelled = false →
    ∃ cs' v', v.follow cs' = some v' ∧ cs'.filter (· ≠ .run) = cs.filter (· ≠ .run) ∧
      v.exchanges cs' = w.exchanges cs ∧ w'.Abreast v' ∧
      (∀ r, w'.progress = .ended r → ∃ r', v'.progress = .ended r' ∧ R r r') ∧
      (∀ report, w'.progress = .crashed report → v'.progress = .crashed report)

/-- Each of two runs does what the other does; `f` turns the outcome of the first into
that of the second. -/
def World.BehavesLike (f : Outcome → Outcome) (v w : World) : Prop :=
  v.Imitates (fun r r' => r' = r.map f) w ∧ w.Imitates (fun r' r => r' = r.map f) v

/-- Runs that do not part, that may differ in what they report, and that have the same
results, but for a change of the outcome. -/
def behaviour (f : Outcome → Outcome) : Likeness where
  lax := True
  parts := fun _ _ _ => False
  results := fun _ r r' => r' = r.map f

namespace World

/-- A run that resembles another one and never parts from it does what the
other one does. -/
lemma Resembles.imitates {L : Likeness} {w v : World}
    {R : Except WorkflowError Outcome → Except WorkflowError Outcome → Prop}
    (h : w.Resembles L v) (hnone : w.loop = none)
    (hparts : ∀ n run run', ¬ L.parts n run run')
    (hR : ∀ n r r', L.results n r r' → R r r') : v.Imitates R w := by
  intro cs w' hfollow hlive
  rcases h.follow (follow_without_loop hnone hfollow) hfollow hlive with hmatch |
    ⟨_, _, _, -, -, -, hmatch⟩
  · obtain ⟨cs', v', ⟨hsame, -⟩, hv, hx, hafter⟩ := hmatch
    refine ⟨cs', v', hv, hsame, hx, hafter.abreast, fun r hr => ?_, fun report hcrash => ?_⟩
    · obtain ⟨n, r', hp, hresults⟩ := of_ended (hr ▸ hafter.progress)
      exact ⟨r', hp, hR n r r' hresults⟩
    · exact of_crashed (hcrash ▸ hafter.progress)
  · obtain ⟨_, _, -, -, -, -, _, _, _, _, -, -, hpart⟩ := hmatch
    exact absurd hpart (hparts _ _ _)

/-- Worlds whose runs resemble each other behave alike. -/
theorem Resembles.behavesLike {f : Outcome → Outcome} {w v : World}
    (h : w.Resembles (behaviour f) v) (hw : w.loop = none) (hv : v.loop = none) :
    v.BehavesLike f w :=
  ⟨h.imitates hw (fun _ _ _ h => h) fun _ _ _ h => h,
    h.flip.imitates hv (fun _ _ _ ⟨_, h⟩ => h) fun _ _ _ ⟨_, h⟩ => h⟩

end World

/-! ## Sequences of executors -/

namespace Run

/-- Executors called after others, on what those came to. -/
def chainAfter (k : Except WorkflowError Json → Run) (b : List Executor) :
    Except WorkflowError Json → Run
  | .ok v => chain k b v
  | .error e => k (.error e)

lemma chain_append (k : Except WorkflowError Json → Run) (a b : List Executor)
    (input : Json) :
    chain k (a ++ b) input = chain (chainAfter k b) a input := by
  induction a generalizing input with
  | nil => rfl
  | cons e rest ih =>
    simp only [List.cons_append, chain]
    congr 1
    funext answer
    cases answer with
    | ok v => exact ih v
    | error error => rfl

end Run

/-- A sequence calls its links and then settles. -/
lemma Step.run_sequence {s : Step} {executors : List Executor}
    (haction : s.action = .sequence executors) (number : Nat) (input : Json)
    (k : Except WorkflowError Json → Run) :
    s.run number input k = Run.chain (s.settle number k) executors input := by
  rw [Step.run_eq, Step.dispatch, haction]

section

variable {f : Outcome → Outcome} {number number' total total' : Nat} {post : List Step}

theorem Run.resembles_after (hf : ∀ v store, f ⟨v, store, total⟩ = ⟨v, store, total'⟩) :
    Run.ResembleOn (behaviour f) number (Run.after total number post)
      (Run.after total' number' post) where
  ok := fun _ =>
    Run.resembles_steps
      (fun v store => congrArg Except.ok (hf v store).symm) fun _ _ _ _ _ => rfl
  error := fun _ _ => .finish rfl

/-- A sequence step without handlers may be cut into two. -/
lemma Step.resembles_split {a b : List Executor} {d d₁ d₂ : String} {input : Json}
    (hf : ∀ v store, f ⟨v, store, total⟩ = ⟨v, store, total'⟩) :
    (Step.run number { action := .sequence (a ++ b), description := d } input
        (Run.after total number post)).Resembles (behaviour f) number
      (Step.run number' { action := .sequence a, description := d₁ } input
        (Run.after total' number'
          ({ action := .sequence b, description := d₂ } :: post))) := by
  have hk : Run.ResembleOn (behaviour f) number (Run.after total number post)
      (Run.after total' (number' + 1) post) := Run.resembles_after hf
  rw [Step.run_sequence rfl, Step.run_sequence rfl, Run.chain_append]
  refine Run.ResembleOn.chain ⟨fun v => ?_, fun e _ => .log (.finish rfl)⟩ a input
  -- Between the halves only the second run begins a step.
  refine .enterRight trivial (.logRight trivial ?_)
  rw [Step.run_sequence rfl]
  exact (hk.settle rfl rfl).chain b v

/-- A success handler of a sequence step may be called as its last executor. -/
lemma Step.resembles_absorb {a : List Executor} {h : Executor} {onFail : Option Executor}
    {d d' : String} {input : Json} {L : Likeness} {n : Nat}
    {k k' : Except WorkflowError Json → Run} (hlax : L.lax) (hk : Run.ResembleOn L n k k') :
    (Step.run number
        { action := .sequence a, description := d, onSuccess := some h, onFail } input
        k).Resembles L n
      (Step.run number'
        { action := .sequence (a ++ [h]), description := d', onFail } input k') := by
  rw [Step.run_sequence rfl, Step.run_sequence rfl, Run.chain_append]
  refine Run.ResembleOn.chain ⟨fun v => .logLeft hlax (.call fun answer => ?_),
    fun e he => ?_⟩ a input
  · cases answer with
    | ok v => exact hk.ok v
    | error error => exact Step.resembles_recover rfl hk rfl
  · exact Step.resembles_recover rfl hk he

end

/-- The same outcome of a run that has one step more. -/
def Outcome.oneMore (o : Outcome) : Outcome :=
  { o with steps := o.steps + 1 }

namespace World

/-- Two laws of sequence steps, inside any plan and with any executors.  A sequence step
without handlers over `a ++ b` behaves like two of them in a row, over `a` and over `b`;
the outcome only counts one step more.  A sequence step over `a` with a success handler,
and with or without a failure handler, behaves like a sequence step over `a` and the
handler with the same failure handler, whichever of its calls fail. -/
theorem sequence_laws {w : World} (hnone : w.loop = none) (pre post : List Step)
    (a : List Executor) :
    (∀ b d d₁ d₂,
      (w.withSteps
          (pre ++ { action := .sequence a, description := d₁ } ::
            { action := .sequence b, description := d₂ } :: post)).begin.BehavesLike
          Outcome.oneMore
        (w.withSteps
          (pre ++ { action := .sequence (a ++ b), description := d } :: post)).begin) ∧
    ∀ h onFail d d',
      (w.withSteps
          (pre ++ { action := .sequence (a ++ [h]), description := d', onFail } ::
            post)).begin.BehavesLike id
        (w.withSteps
          (pre ++ { action := .sequence a, description := d, onSuccess := some h, onFail } ::
            post)).begin := by
  constructor
  · intro b d d₁ d₂
    refine Resembles.behavesLike
      (begin_resembles w (List.cons_ne_nil _ _) (List.cons_ne_nil _ _) (fun v => ?_)
      fun _ _ _ _ _ => rfl) hnone hnone
    rw [Run.steps_cons, Run.steps_cons]
    exact .enter (.log
      (Step.resembles_split fun v store => by simp [Outcome.oneMore, Nat.add_assoc]))
  · intro h onFail d d'
    refine Resembles.behavesLike
      (begin_resembles w (List.cons_ne_nil _ _) (List.cons_ne_nil _ _) (fun v => ?_)
      fun _ _ _ _ _ => rfl) hnone hnone
    rw [Run.steps_cons, Run.steps_cons]
    exact .enter (.log
      (Step.resembles_absorb trivial (Run.resembles_after fun v store => by simp)))

/-- The first half may be empty. -/
theorem sequence_laws_halved :
    ∃ cs v, (echoWorld.withSteps [
          { action := .sequence [], description := "nothing" },
          { action := .sequence [ExecutorSpec.echo.toExecutor 0],
            description := "echo" }]).begin.follow cs = some v ∧
      v.progress = .ended (.ok ⟨some (.str "hello"), .empty, 2⟩) := by
  obtain ⟨w', hfollow, hlive, hend⟩ :
      ∃ w', (echoWorld.withSteps [
          { action := .sequence ([] ++ [ExecutorSpec.echo.toExecutor 0]),
            description := "echo" }]).begin.follow (List.replicate 8 .run) = some w' ∧
        w'.isCancelled = false ∧
        w'.progress = .ended (.ok ⟨some (.str "hello"), .empty, 1⟩) :=
    ⟨_, rfl, rfl, rfl⟩
  obtain ⟨hdoes, -⟩ := (sequence_laws (w := echoWorld) rfl [] [] []).1
    [ExecutorSpec.echo.toExecutor 0] "echo" "nothing" "echo"
  obtain ⟨cs, v, hv, -, -, -, hended, -⟩ := hdoes _ w' hfollow hlive
  obtain ⟨r, hr, rfl⟩ := hended _ hend
  exact ⟨cs, v, hv, hr⟩

end World
end Workplan
