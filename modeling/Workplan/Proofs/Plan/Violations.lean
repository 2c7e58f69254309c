import Mathlib.Tactic.Lemma
import Workplan.Cli.Report
import Workplan.Proofs.Plan.Assembled
import Workplan.Proofs.Plan.RoundTrip

/-!
# Violations

Which rules a plan breaks is said by `Plan.Breaks`, each rule for itself and without an
order of checking.  Of the broken rules `validate` reports the one that comes first: the
name before the steps, earlier steps before later ones, and in one step the items before
the programs (`Violation.Precedes`).

The main result, `Plan.validate_decides`, says that this is all there is to validity: a
plan that breaks no rule is accepted, assembled, and loaded by every command, and any
other plan is refused by all of them for the rule that comes first.
-/

namespace Workplan

/-! ## Rules -/

/-- Whether a text has a character that is not blank. -/
def Text.SaysSomething (s : String) : Prop :=
  ∃ c ∈ s.toList, isBlank c = false

/-- The executors that a step names, wherever they stand. -/
inductive StepSpec.Names (s : StepSpec) : ExecutorSpec → Prop where
  | sequence {executors e} : s.body = .sequence executors → e ∈ executors → Names s e
  | parallel {executors e} : s.body = .parallel executors → e ∈ executors → Names s e
  | agent {items key e} : s.body = .iterate items key e → Names s e
  | onSuccess {e} : s.onSuccess = some e → Names s e
  | onFail {e} : s.onFail = some e → Names s e

/-- The rules that a step with a number breaks. -/
inductive StepSpec.Breaks (number : Nat) (s : StepSpec) : Violation → Prop where
  /-- Of an iterate step, items and key are both given, or neither of them. -/
  | source {items key agent} : s.body = .iterate items key agent →
      (items.isSome ↔ key.isSome) →
      Breaks number s (.iterateSource number)
  | program {program args} : s.Names (.command program args) →
      ¬ Text.SaysSomething program →
      Breaks number s (.emptyProgram number)

/-- The rules that a plan breaks; its steps are numbered from one. -/
inductive Plan.Breaks (p : Plan) : Violation → Prop where
  | name : ¬ Text.SaysSomething p.name → Breaks p .emptyName
  | step {i} {s : StepSpec} {v} : p.steps[i]? = some s → s.Breaks (i + 1) v → Breaks p v

namespace Violation

/-- The number of the step that a violation is about; the name comes before all steps. -/
def step : Violation → Nat
  | emptyName => 0
  | iterateSource n => n
  | emptyProgram n => n

/-- Whether a violation is reported rather than another one: it is about an earlier step,
or about the items where the other one is about a program of the same step. -/
def Precedes (v v' : Violation) : Prop :=
  v.step < v'.step ∨ ∃ n, v = .iterateSource n ∧ v' = .emptyProgram n

/-- The first of some violations. -/
def IsFirst (broken : Violation → Prop) (v : Violation) : Prop :=
  broken v ∧ ∀ v', broken v' → v' = v ∨ v.Precedes v'

/-- No two violations precede each other. -/
lemma Precedes.asymm {v v' : Violation} (h : v.Precedes v') : ¬ v'.Precedes v := by
  intro h'
  rcases h with hlt | ⟨n, rfl, rfl⟩
  · rcases h' with hlt' | ⟨m, rfl, rfl⟩
    · omega
    · exact Nat.lt_irrefl m hlt
  · rcases h' with hlt' | ⟨m, heq, -⟩
    · exact Nat.lt_irrefl n hlt'
    · cases heq

/-- There is only one first violation. -/
lemma IsFirst.unique {broken : Violation → Prop} {v v' : Violation} (h : IsFirst broken v)
    (h' : IsFirst broken v') : v = v' := by
  rcases h.2 v' h'.1 with heq | hbefore
  · exact heq.symm
  · rcases h'.2 v h.1 with heq | hbehind
    · exact heq
    · exact absurd hbehind hbefore.asymm

end Violation

/-! ## Checks -/

/-- A text is blank exactly if it says nothing. -/
lemma Text.isAllBlank_iff {s : String} : isAllBlank s = true ↔ ¬ SaysSomething s := by
  unfold isAllBlank SaysSomething
  rw [List.all_eq_true]
  constructor
  · rintro h ⟨c, hc, hsays⟩
    rw [h c hc] at hsays
    cases hsays
  · intro h c hc
    apply Classical.byContradiction
    intro hblank
    exact h ⟨c, hc, Bool.eq_false_iff.mpr hblank⟩

namespace StepSpec

variable {s : StepSpec} {number : Nat} {v : Violation}

/-- No place is left out where a step names executors. -/
theorem mem_executors_iff {e : ExecutorSpec} : e ∈ s.executors ↔ s.Names e := by
  -- A body names executors in a list, or one agent.
  have hbody : e ∈ s.bodyExecutors ↔ (∃ es, s.body = .sequence es ∧ e ∈ es) ∨
      (∃ es, s.body = .parallel es ∧ e ∈ es) ∨
      ∃ items key, s.body = .iterate items key e := by
    unfold bodyExecutors
    cases s.body <;> simp [eq_comm]
  unfold executors
  rw [List.mem_append, List.mem_append, Option.mem_toList, Option.mem_toList, hbody]
  constructor
  · rintro (((⟨es, hs, he⟩ | ⟨es, hs, he⟩ | ⟨items, key, hs⟩) | hs) | hs)
    · exact .sequence hs he
    · exact .parallel hs he
    · exact .agent hs
    · exact .onSuccess hs
    · exact .onFail hs
  · intro h
    cases h with
    | sequence hs he => exact .inl (.inl (.inl ⟨_, hs, he⟩))
    | parallel hs he => exact .inl (.inl (.inr (.inl ⟨_, hs, he⟩)))
    | agent hs => exact .inl (.inl (.inr (.inr ⟨_, _, hs⟩)))
    | onSuccess hs => exact .inl (.inr hs)
    | onFail hs => exact .inr hs

/-- A step lacks a source exactly if it breaks the rule about sources. -/
lemma lacksSource_iff : s.lacksSource = true ↔ s.Breaks number (.iterateSource number) := by
  constructor
  · intro h
    unfold lacksSource at h
    split at h
    · next items key agent hbody =>
      refine .source hbody ?_
      rw [beq_iff_eq] at h
      rw [h]
    · cases h
  · intro h
    cases h with
    | source hbody hboth =>
      rw [lacksSource, hbody]
      exact beq_iff_eq.mpr (Bool.eq_iff_iff.mpr hboth)

/-- Some command of a step lacks a program exactly if it breaks the rule about programs. -/
lemma any_lacksProgram_iff :
    s.executors.any ExecutorSpec.lacksProgram = true ↔
      s.Breaks number (.emptyProgram number) := by
  rw [List.any_eq_true]
  constructor
  · rintro ⟨e, he, hlacks⟩
    cases e with
    | command program args =>
      exact .program (mem_executors_iff.mp he) (Text.isAllBlank_iff.mp hlacks)
    | echo | template | fail | sleep | storeSet => cases hlacks
  · intro h
    cases h with
    | program hnames hblank =>
      exact ⟨_, mem_executors_iff.mpr hnames, Text.isAllBlank_iff.mpr hblank⟩

/-- A step breaks rules under its own number only. -/
lemma Breaks.eq (h : s.Breaks number v) :
    v = .iterateSource number ∨ v = .emptyProgram number := by
  cases h with
  | source => exact .inl rfl
  | program => exact .inr rfl

/-- The violation that is found in a step is its first. -/
lemma isFirst_of_violation? (h : s.violation? number = some v) :
    v.IsFirst (s.Breaks number) := by
  unfold violation? at h
  split at h
  · next hlacks =>
    obtain rfl := Option.some.inj h
    refine ⟨lacksSource_iff.mp hlacks, fun v' hv' => ?_⟩
    -- A step has two rules of its own, and the one about sources is the first.
    rcases hv'.eq with rfl | rfl
    · exact .inl rfl
    · exact .inr (.inr ⟨number, rfl, rfl⟩)
  · next hsource =>
    split at h
    · next hlacks =>
      obtain rfl := Option.some.inj h
      refine ⟨any_lacksProgram_iff.mp hlacks, fun v' hv' => ?_⟩
      rcases hv'.eq with rfl | rfl
      · exact absurd (lacksSource_iff.mpr hv') hsource
      · exact .inl rfl
    · cases h

/-- If none is found the step breaks no rule. -/
lemma not_breaks_of_violation? (h : s.violation? number = none) : ¬ s.Breaks number v := by
  unfold violation? at h
  split at h
  · cases h
  · next hsource =>
    split at h
    · cases h
    · next hprogram =>
      intro hv
      rcases hv.eq with rfl | rfl
      · exact hsource (lacksSource_iff.mpr hv)
      · exact hprogram (any_lacksProgram_iff.mpr hv)

end StepSpec

namespace Plan

variable {p : Plan} {v : Violation}

/-- Steps are checked one after another, so that what is found is the first violation
among them. -/
lemma isFirst_of_stepViolation? {steps : List StepSpec} {number : Nat}
    (h : stepViolation? number steps = some v) :
    v.IsFirst fun v => ∃ i, ∃ s :
    StepSpec, steps[i]? = some s ∧ s.Breaks (number + i) v := by
  induction steps generalizing number with
  | nil => cases h
  | cons s rest ih =>
    rw [stepViolation?] at h
    split at h
    · next w hfound =>
      obtain rfl := Option.some.inj h
      have hfirst := StepSpec.isFirst_of_violation? hfound
      refine ⟨⟨0, s, rfl, hfirst.1⟩, ?_⟩
      rintro v' ⟨i, s', hi, hv'⟩
      cases i with
      | zero =>
        obtain rfl := Option.some.inj hi
        exact hfirst.2 v' hv'
      | succ i =>
        -- A later step has a greater number.
        refine .inr (.inl ?_)
        rcases hfirst.1.eq with rfl | rfl <;> rcases hv'.eq with rfl | rfl <;>
          exact Nat.lt_add_of_pos_right (Nat.succ_pos i)
    · next hnone =>
      obtain ⟨⟨i, s', hi, hv⟩, hfirst⟩ := ih h
      -- The head breaks no rule, so what comes first in the rest comes first, one place
      -- further on.
      have hshift : ∀ j, number + 1 + j = number + (j + 1) := fun j => by omega
      refine ⟨⟨i + 1, s', by simpa using hi, hshift i ▸ hv⟩, ?_⟩
      rintro v' ⟨j, t, hj, hv'⟩
      cases j with
      | zero =>
        obtain rfl := Option.some.inj hj
        exact absurd hv' (StepSpec.not_breaks_of_violation? hnone)
      | succ j => exact hfirst v' ⟨j, t, by simpa using hj, (hshift j).symm ▸ hv'⟩

lemma not_breaks_of_stepViolation? {steps : List StepSpec} {number : Nat}
    (h : stepViolation? number steps = none) (i : Nat) (s : StepSpec)
    (hs : steps[i]? = some s) :
    ¬ s.Breaks (number + i) v := by
  induction steps generalizing number i with
  | nil => cases hs
  | cons head rest ih =>
    rw [stepViolation?] at h
    split at h
    · cases h
    · next hnone =>
      -- The steps behind the first one are numbered from the next number.
      cases i with
      | zero =>
        obtain rfl := Option.some.inj hs
        exact StepSpec.not_breaks_of_violation? hnone
      | succ i =>
        have hrest := ih h i (by simpa using hs)
        rwa [show number + 1 + i = number + (i + 1) by omega] at hrest

/-- The violation that is found in a plan is its first. -/
lemma isFirst_of_violation? (h : p.violation? = some v) : v.IsFirst p.Breaks := by
  unfold violation? at h
  split at h
  · next hblank =>
    obtain rfl := Option.some.inj h
    refine ⟨.name (Text.isAllBlank_iff.mp hblank), fun v' hv' => ?_⟩
    cases hv' with
    | name => exact .inl rfl
    | step hs hv' =>
      -- The name counts as coming before the first step.
      refine .inr (.inl ?_)
      rcases hv'.eq with rfl | rfl <;> exact Nat.succ_pos _
  · next hname =>
    obtain ⟨⟨i, s, hs, hv⟩, hfirst⟩ := isFirst_of_stepViolation? h
    rw [Nat.add_comm] at hv
    refine ⟨.step hs hv, fun v' hv' => ?_⟩
    cases hv' with
    | name hblank => exact absurd (Text.isAllBlank_iff.mpr hblank) hname
    | step hs' hv' => exact hfirst v' ⟨_, _, hs', by rwa [Nat.add_comm]⟩

lemma not_breaks_of_violation? (h : p.violation? = none) : ¬ p.Breaks v := by
  unfold violation? at h
  split at h
  · cases h
  · next hname =>
    intro hv
    cases hv with
    | name hblank => exact hname (Text.isAllBlank_iff.mpr hblank)
    | step hs hv =>
      rw [Nat.add_comm] at hv
      exact not_breaks_of_stepViolation? h _ _ hs hv

lemma validate_eq_error_iff : p.validate = .error v ↔ v.IsFirst p.Breaks := by
  unfold validate
  split
  · next w hfound =>
    -- What is found is the first violation, and there is only one that is first.
    have hfirst := isFirst_of_violation? hfound
    constructor
    · intro h
      obtain rfl := Except.error.inj h
      exact hfirst
    · intro h
      rw [hfirst.unique h]
  · next hnone =>
    constructor
    · intro h
      cases h
    · intro h
      exact absurd h.1 (not_breaks_of_violation? hnone)

/-- A plan is accepted exactly if it breaks no rule. -/
lemma validate_eq_ok_iff : p.validate = .ok () ↔ ∀ v, ¬ p.Breaks v := by
  unfold validate
  split
  · next w hfound =>
    constructor
    · intro h
      cases h
    · intro h
      exact absurd (isFirst_of_violation? hfound).1 (h w)
  · next hnone => exact ⟨fun _ v => not_breaks_of_violation? hnone, fun _ => rfl⟩

/-- A plan that breaks no rule, said rule by rule. -/
lemma forall_not_breaks_iff : (∀ v, ¬ p.Breaks v) ↔ Text.SaysSomething p.name ∧
    (∀ s ∈ p.steps, ∀ items key agent, s.body = .iterate items key agent →
      (items.isSome ∧ key = none) ∨ (items = none ∧ key.isSome)) ∧
    ∀ s ∈ p.steps, ∀ program args, s.Names (.command program args) →
      Text.SaysSomething program := by
  constructor
  · intro h
    refine ⟨Classical.byContradiction fun hname => h _ (.name hname), ?_, ?_⟩
    · intro s hs items key agent hbody
      obtain ⟨i, hi⟩ := List.mem_iff_getElem?.mp hs
      -- Both sources or none would break the rule.
      have hone : ¬ (items.isSome ↔ key.isSome) :=
        fun hboth => h _ (.step hi (.source hbody hboth))
      cases items <;> cases key <;> simp_all
    · intro s hs program args hnames
      obtain ⟨i, hi⟩ := List.mem_iff_getElem?.mp hs
      exact Classical.byContradiction fun hblank => h _ (.step hi (.program hnames hblank))
  · rintro ⟨hname, hsource, hprogram⟩ v hv
    cases hv with
    | name hblank => exact hblank hname
    | step hi hv =>
      have hs := List.mem_of_getElem? hi
      cases hv with
      | source hbody hboth =>
        rcases hsource _ hs _ _ _ hbody with ⟨hitems, rfl⟩ | ⟨rfl, hkey⟩
        · exact absurd (hboth.mp hitems) (by simp)
        · exact absurd (hboth.mpr hkey) (by simp)
      | program hnames hblank => exact hblank (hprogram _ hs _ _ hnames)

/-! ## Assembly -/

/-- Assembly reports the violation that validation reports, whatever handle there is
on the store. -/
lemma assemble_eq_error_iff (handle : StoreHandle) :
    p.assemble handle = .error v ↔ p.validate = .error v := by
  cases hvalid : p.validate with
  | error w =>
    unfold assemble
    rw [hvalid]
    simp
  | ok u =>
    obtain ⟨steps, -, hassemble⟩ := assemble_of_valid hvalid handle
    rw [hassemble]
    simp

/-- Assembly accepts what validation accepts. -/
theorem exists_assemble_iff (handle : StoreHandle) :
    (∃ f, p.assemble handle = .ok f) ↔ p.validate = .ok () := by
  constructor
  · rintro ⟨f, hf⟩
    cases hvalid : p.validate with
    | ok u => rfl
    | error w =>
      rw [(assemble_eq_error_iff handle).mpr hvalid] at hf
      cases hf
  · intro hvalid
    obtain ⟨steps, -, hassemble⟩ := assemble_of_valid hvalid handle
    exact ⟨_, hassemble⟩

lemma validate_of_loadFile {path : String} {content : FileContent}
    (h : loadFile path content = .ok p) :
    p.validate = .ok () := by
  unfold loadFile at h
  split at h
  · cases h
  · exact (of_load h).1

end Plan

/-! ## Commands -/

namespace Cli

/-- A command has failed because its plan could not be loaded. -/
def FailsToLoad (path : String) (printed : Printed) : Prop :=
  ∃ causes, printed.trouble = some ⟨"Failed to load plan " ++ path, causes⟩

variable {path : String} {content : FileContent}

/-- A plan file is loaded as a plan exactly if it is loaded as a workflow: assembly
refuses nothing more. -/
lemma exists_loadFile_iff :
    (∃ f, Workflow.loadFile path content = .ok f) ↔
      ∃ p, Plan.loadFile path content = .ok p := by
  unfold Workflow.loadFile
  cases hload : Plan.loadFile path content with
  | error e => simp
  | ok p =>
    obtain ⟨f, hf⟩ := (Plan.exists_assemble_iff {}).mpr (Plan.validate_of_loadFile hload)
    simp [hf, Except.mapError]

/-- The check of a plan file accepts it exactly if it is loaded as a workflow. -/
lemma validatePlan_accepts_iff (printYaml json : Bool) :
    (validatePlan path content printYaml json).trouble = none ↔
      ∃ f, Workflow.loadFile path content = .ok f := by
  rw [exists_loadFile_iff]
  unfold validatePlan
  cases hload : Plan.loadFile path content with
  | error e => simp
  | ok p =>
    obtain ⟨f, hf⟩ := (Plan.exists_assemble_iff {}).mpr (Plan.validate_of_loadFile hload)
    simp [hf]

/-- What a command says of a workflow does not read like a failure to load. -/
lemma ne_failed_to_load {front back name : String} {c : Char}
    (hfront : front.toList.head? = some c) (hc : c ≠ 'F') :
    front ++ name ++ back ≠ "Failed to load plan " ++ path := by
  intro heq
  have hheads := congrArg (fun s => s.toList.head?) heq
  simp only [String.toList_append, List.head?_append, hfront, Option.some_or] at hheads
  exact hc (Option.some.inj hheads)

/-- A run of a plan file fails to load it exactly if it is not loaded as a workflow. -/
lemma failsToLoad_runPlan_iff (host : Host) (showPlan json quiet : Bool) :
    FailsToLoad path (runPlan host path content showPlan json quiet) ↔
      ¬ ∃ f, Workflow.loadFile path content = .ok f := by
  unfold FailsToLoad runPlan
  cases Workflow.loadFile path content with
  | error e => simp
  | ok f =>
    -- Once there is a workflow, only its run may fail, and then the command says that in
    -- other words.
    simp only [Except.ok.injEq, exists_eq', not_true_eq_false, iff_false, not_exists]
    intro causes htrouble
    split at htrouble
    · cases htrouble
    · exact ne_failed_to_load (c := 'W') rfl (by decide)
        (congrArg Trouble.what (Option.some.inj htrouble))
    · exact ne_failed_to_load (c := 'W') rfl (by decide)
        (congrArg Trouble.what (Option.some.inj htrouble))

/-- So it is for a loop. -/
lemma failsToLoad_loopPlan_iff (host : Host) (delayMs : Nat) (json quiet : Bool)
    (interruptAfter : Nat) :
    FailsToLoad path (loopPlan host path content delayMs json quiet interruptAfter) ↔
      ¬ ∃ f, Workflow.loadFile path content = .ok f := by
  unfold FailsToLoad loopPlan
  cases Workflow.loadFile path content with
  | error e => simp
  | ok f =>
    simp only [Except.ok.injEq, exists_eq', not_true_eq_false, iff_false, not_exists]
    intro causes htrouble
    split at htrouble
    · cases htrouble
    · exact ne_failed_to_load (c := 'L') rfl (by decide)
        (congrArg Trouble.what (Option.some.inj htrouble))

end Cli

/-! ## Validity -/

namespace Plan

/-- Validity, and all that hangs on it.  A plan is accepted exactly if its name says
something, each iterate step has one source of items, and each command that a step names,
wherever it stands, has a program that says something.  Otherwise the first violation is
reported.  Assembly accepts the same plans and reports the same violations, so that the
actions of a valid plan are always known, and every plan that is loaded is assembled.  A
plan file that one command accepts is loaded by the other two. -/
theorem validate_decides (p : Plan) :
    (p.validate = .ok () ↔ Text.SaysSomething p.name ∧
      (∀ s ∈ p.steps, ∀ items key agent, s.body = .iterate items key agent →
        (items.isSome ∧ key = none) ∨ (items = none ∧ key.isSome)) ∧
      ∀ s ∈ p.steps, ∀ program args, s.Names (.command program args) →
        Text.SaysSomething program) ∧
    (∀ v, p.validate = .error v ↔ v.IsFirst p.Breaks) ∧
    (∀ handle, (∃ f, p.assemble handle = .ok f) ↔ p.validate = .ok ()) ∧
    (∀ handle v, p.assemble handle = .error v ↔ p.validate = .error v) ∧
    (p.validate = .ok () →
      ∀ s ∈ p.steps, ∀ store first, ∃ action, s.action? store first = some action) ∧
    (∀ text, load text = .ok p → ∀ handle, ∃ f, p.assemble handle = .ok f) ∧
    ∀ path content printYaml json,
      (∀ host showPlan json' quiet,
        (Cli.validatePlan path content printYaml json).trouble = none ↔
        ¬ Cli.FailsToLoad path (Cli.runPlan host path content showPlan json' quiet)) ∧
      ∀ host delayMs json' quiet interruptAfter,
        (Cli.validatePlan path content printYaml json).trouble = none ↔
          ¬ Cli.FailsToLoad path
            (Cli.loopPlan host path content delayMs json' quiet interruptAfter) := by
  refine ⟨validate_eq_ok_iff.trans forall_not_breaks_iff, fun v => validate_eq_error_iff,
    exists_assemble_iff, fun handle v => assemble_eq_error_iff handle, ?_, ?_, ?_⟩
  · intro hvalid s hs store first
    exact StepSpec.exists_action (lacksSource_of_validate hvalid s hs) store first
  · intro text hload handle
    exact (exists_assemble_iff handle).mpr (of_load hload).1
  · intro path content printYaml json
    -- All three commands load the file in the same way before they do anything else.
    have haccepts : (Cli.validatePlan path content printYaml json).trouble = none ↔
        ∃ f, Workflow.loadFile path content = .ok f :=
          Cli.validatePlan_accepts_iff printYaml json
    constructor
    · intro host showPlan json' quiet
      rw [haccepts, Cli.failsToLoad_runPlan_iff, Classical.not_not]
    · intro host delayMs json' quiet interruptAfter
      rw [haccepts, Cli.failsToLoad_loopPlan_iff, Classical.not_not]

/-- A plan with a command as a handler. -/
def rescuedPlan : Plan where
  name := "rescued"
  prompt := none
  seed := .empty
  steps := [⟨none, none, some (.command "tr" []), .iterate none (some "xs") .echo⟩]

/-- A text with that plan. -/
def rescuedText : String :=
  "name: rescued\nsteps:\n- on_fail:\n    type: command\n    program: tr\n    args: []\n"
    ++ "  kind: iterate\n  key: xs\n  agent:\n    type: echo\n"

/-- A plan whose second step has two sources of items and a handler without a program. -/
def faultyPlan : Plan where
  name := "faulty"
  prompt := none
  seed := .empty
  steps := [
    ⟨none, none, none, .prompt "go"⟩,
    ⟨none, none, some (.command "\t " []), .iterate (some []) (some "xs") .echo⟩]

set_option maxRecDepth 10000 in
/-- The plan in the text is loaded and assembled; of the two faults of the other plan, the
one in its items comes first. -/
theorem validate_decides_rescued :
    load rescuedText = .ok rescuedPlan ∧ (∃ f, rescuedPlan.assemble = .ok f) ∧
      faultyPlan.Breaks (.emptyProgram 2) ∧
      Violation.IsFirst faultyPlan.Breaks (.iterateSource 2) := by
  have hprinted : rescuedPlan.toYaml = rescuedText := by decide
  have hfits : rescuedPlan.Fits (Yaml.maxDepth - 4) := by
    simp [Fits, rescuedPlan, StepBody.values, Store.empty]
  have hload : load rescuedText = .ok rescuedPlan := by
    rw [← hprinted]
    exact load_toYaml rfl hfits
  obtain ⟨-, -, -, -, -, hassembles, -⟩ := validate_decides rescuedPlan
  obtain ⟨-, hfirst, -⟩ := validate_decides faultyPlan
  refine ⟨hload, hassembles rescuedText hload {}, ?_, (hfirst _).mp rfl⟩
  refine .step (i := 1) rfl (.program (.onFail rfl) ?_)
  rintro ⟨c, hc, hsays⟩
  have hblank : ∀ c ∈ "\t ".toList, Text.isBlank c = true := List.all_eq_true.mp rfl
  rw [hblank c hc] at hsays
  cases hsays

end Plan

end Workplan
