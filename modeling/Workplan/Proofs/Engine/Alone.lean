import Mathlib.Tactic.Lemma
import Workplan.Proofs.Engine.Rules

/-!
# Runs alone

What a run comes to when nothing else happens meanwhile (`Run.alone`): each call of its
own is carried to its end before the run goes on, and the calls of a fan-out are made one
after another.  No schedule and no clock has a part in it, so it is a function of the
workflow.  It has no value only where a call panics, launches a program, cancels, or reads
another store than the workflow's own.

The calls of a fan-out may get in each other's way.  They do not if they *settle*: they
read nothing, they fail in nothing, and whatever they write under a name is the one value
on which all of them agree (`Task.Settles`).  What such a call is still going to do is
then known in advance (`Task.prospect`), and what several of them leave in the store
depends only on the set of the names that they write (`Store.settle_congr`), not on the
order of the writes.  A run is *steady* if every fan-out of it consists of such calls
(`steady`); a steady run comes to something (`Run.exists_alone`).
-/

namespace Workplan

/-! ## Evaluation -/

/-- What a task comes to by itself, if it reads no other store than the one that a handle
is on, and what it leaves in that. -/
def Task.alone (own : StoreHandle) :
    Task → Store → Option (Except ExecutorError Json × Store)
  | finish result, store => some (result, store)
  | read handle key next, store =>
    if handle = own then (next (store.get? key)).alone own store else none
  | write handle key value next, store =>
    next.alone own (if handle = own then store.set key value else store)
  | sleep _ next, store | trace _ _ next, store | log _ next, store => next.alone own store
  | panic _, _ | launch _ _ _, _ | cancel _, _ => none

/-- What calls come to that are made one after another: their values, or the first
failure. -/
def Run.gatherAlone (own : StoreHandle) :
    List (Executor × Json) → Store → Option (Except ExecutorError (List Json) × Store)
  | [], store => some (.ok [], store)
  | c :: rest, store =>
    ((c.1.run c.2).alone own store).bind fun
      | (.ok v, store) => (gatherAlone own rest store).map fun o => (o.1.map (v :: ·), o.2)
      | (.error error, store) => some (.error error, store)

/-- What a run comes to by itself, and the workflow that it leaves. -/
def Run.alone : Run → Workflow → Option (Except WorkflowError Outcome × Workflow)
  | finish result, f => some (result, f)
  | enter _ rest, f | log _ rest, f => rest.alone f
  | setPrompt text rest, f => rest.alone { f with prompt := some text }
  | readStore rest, f => (rest f.store).alone f
  | call e input rest, f =>
    ((e.run input).alone f.handle f.store).bind fun o =>
      (rest o.1).alone { f with store := o.2 }
  | fanOut calls rest, f =>
    (gatherAlone f.handle calls f.store).bind fun o =>
      (rest o.1).alone { f with store := o.2 }

/-- The results of consecutive runs of a workflow, and what they leave of it. -/
def Workflow.alone (f : Workflow) :
    Nat → Option (List (Except WorkflowError Outcome) × Workflow)
  | 0 => some ([], f)
  | n + 1 =>
    (f.alone n).bind fun o => (o.2.nextRun.alone o.2).map fun p => (o.1 ++ [p.1], p.2)

/-! ## Settling -/

/-- What is still to come of a call: the names under which it is going to write,
and its value. -/
structure Prospect where
  names : List String
  value : Json

/-- What is still to come of a task, if it settles. -/
def Task.prospect : Task → Prospect
  | finish (.ok v) => ⟨[], v⟩
  | write _ key _ next => { next.prospect with names := key :: next.prospect.names }
  | sleep _ next | trace _ _ next | log _ next => next.prospect
  | _ => ⟨[], .null⟩

/-- A task that ends with a value, reads nothing, and writes nothing but the agreed
values, to the store that a handle is on. -/
def Task.Settles (own : StoreHandle) (agreed : String → Json) : Task → Prop
  | finish (.ok _) => True
  | write handle key value next =>
    handle = own ∧ value = agreed key ∧ next.Settles own agreed
  | sleep _ next | trace _ _ next | log _ next => next.Settles own agreed
  | _ => False

/-- The store after the agreed values have been written under some names. -/
def Store.settle (agreed : String → Json) (names : List String) (s : Store) : Store :=
  s.setAll (names.map fun name => (name, agreed name))

section

variable {own : StoreHandle} {agreed : String → Json}

namespace Store

@[simp] theorem settle_nil (s : Store) : s.settle agreed [] = s := rfl

lemma settle_cons (name : String) (names : List String) (s : Store) :
    s.settle agreed (name :: names) = (s.set name (agreed name)).settle agreed names := rfl

lemma settle_append (names names' : List String) (s : Store) :
    s.settle agreed (names ++ names') = (s.settle agreed names).settle agreed names' := by
  simp only [settle, setAll, List.map_append, List.foldl_append]

/-- Settled names have the agreed values, and the others keep theirs. -/
lemma get?_settle (names : List String) (s : Store) (name : String) :
    (s.settle agreed names).get? name = if name ∈ names then some (agreed name)
      else s.get? name := by
  induction names generalizing s with
  | nil => simp
  | cons head rest ih =>
    rw [settle_cons, ih]
    -- A name that is written again later has the same value then.
    by_cases hrest : name ∈ rest
    · simp [hrest]
    · by_cases hhead : name = head
      · subst hhead
        simp [hrest]
      · rw [if_neg hrest, if_neg (by simp [hhead, hrest]), get?_set_of_ne s _ hhead]

/-- Only the set of the names counts. -/
theorem settle_congr {names names' : List String} (s : Store)
    (h : ∀ name, name ∈ names ↔ name ∈ names') :
    s.settle agreed names = s.settle agreed names' := by
  refine ext_get? fun name => ?_
  simp only [get?_settle, h name]

end Store

/-- A task that settles leaves what its prospect says. -/
lemma Task.Settles.alone {t : Task} (h : t.Settles own agreed) (store : Store) :
    t.alone own store = some (.ok t.prospect.value,
      store.settle agreed t.prospect.names) := by
  induction t generalizing store with
  | finish result =>
    cases result with
    | ok v => rfl
    | error e => exact h.elim
  | write handle key value next ih =>
    obtain ⟨rfl, rfl, hnext⟩ := h
    rw [Task.alone, if_pos rfl]
    exact ih hnext _
  | sleep ms next ih | trace name input next ih | log event next ih => exact ih h store
  | read | panic | launch | cancel => exact h.elim

/-- Calls that settle, made one after another, leave what their prospects say. -/
theorem Run.gatherAlone_settles {calls : List (Executor × Json)}
    (h : ∀ c ∈ calls, (c.1.run c.2).Settles own agreed) (store : Store) :
    Run.gatherAlone own calls store =
      some (.ok (calls.map fun c => (c.1.run c.2).prospect.value),
        store.settle agreed (calls.flatMap fun c => (c.1.run c.2).prospect.names)) := by
  induction calls generalizing store with
  | nil => rfl
  | cons c rest ih =>
    rw [List.forall_mem_cons] at h
    have hrest := ih h.2 (store.settle agreed (c.1.run c.2).prospect.names)
    rw [Run.gatherAlone, h.1.alone store, Option.bind_some]
    dsimp only
    rw [hrest, ← Store.settle_append]
    rfl

end

/-! ## Steady runs -/

/-- A run may wait for calls that come to something by themselves, and start calls
that settle. -/
def steady (own : StoreHandle) : Rule where
  call _ e input := ∀ store, ∃ o, (e.run input).alone own store = some o
  fanOut _ calls := ∃ agreed, ∀ c ∈ calls, (c.1.run c.2).Settles own agreed

/-- A steady run comes to something. -/
theorem Run.exists_alone {run : Run} {n : Nat} {seen : Option Store} (f : Workflow)
    (h : run.Obeys (steady f.handle) n seen) : ∃ o, run.alone f = some o := by
  induction run generalizing n seen f with
  | finish result => exact ⟨_, rfl⟩
  | enter step rest ih | log event rest ih => exact ih f h
  | setPrompt text rest ih => exact ih { f with prompt := some text } h
  | readStore rest ih => exact ih _ f (h _)
  | call e input rest ih =>
    obtain ⟨o, ho⟩ := h.1 f.store
    obtain ⟨p, hp⟩ := ih _ { f with store := o.2 } (h.2 o.1)
    exact ⟨p, by rw [Run.alone, ho, Option.bind_some, hp]⟩
  | fanOut calls rest ih =>
    obtain ⟨agreed, hsettles⟩ := h.1
    have hcalls := Run.gatherAlone_settles hsettles f.store
    obtain ⟨p, hp⟩ := ih _ { f with store := f.store.settle agreed _ } (h.2 _)
    exact ⟨p, by rw [Run.alone, hcalls, Option.bind_some]; exact hp⟩

/-- A workflow whose steps have only steady calls. -/
def Workflow.IsSteady (f : Workflow) : Prop :=
  ∀ s ∈ f.steps, ∀ number, s.Obeys (steady f.handle) number

/-- The run of a steady workflow is steady from its beginning. -/
theorem Workflow.IsSteady.nextRun {f : Workflow} (h : f.IsSteady) :
    f.nextRun.Obeys (steady f.handle) 0 none :=
  Workflow.nextRun_obeys fun _ s hs => h s (List.mem_of_getElem? hs) _

end Workplan
