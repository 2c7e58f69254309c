import Mathlib.Tactic.Lemma
import Workplan.Proofs.Engine.Writes
import Workplan.Proofs.Plan.Faithful
import Workplan.Proofs.Plan.Violations

/-!
# The store of a plan's workflow

What a plan says about the store of its workflow is all that ever happens to it: the store
begins with the entries of the plan, and changes only when an executor that the plan
describes to write does so (`World.Stores`).  This holds in every life of the workflow,
whatever runs and loops it goes through, on every schedule and with every cancellation,
and also between two runs, when started calls may still go on (`Plan.store_in_life`).
-/

namespace Workplan

/-- A plan names an executor that writes under a key: in the body of a step, as its agent
or as one of its handlers. -/
def Plan.Stores (p : Plan) (key : String) : Prop :=
  ∃ s ∈ p.steps, s.Names (.storeSet key)

/-- What happens is that a call writes its input under a key: the call has been made to an
executor that is described to do so and holds the handle on the workflow's store, and this
is its first action. -/
def World.Stores (w : World) (key : String) (input : Json) : Happening → Prop
  | .choose c => ∃ e, (e, input) ∈ w.calls ∧
      (ExecutorSpec.storeSet key).Describes w.workflow.handle e ∧
      w.Ready (e, input) (e.run input) c
  | _ => False

/-! ## Executors -/

namespace ExecutorSpec

variable {spec : ExecutorSpec} {store : StoreHandle} {e : Executor} {input : Json}

/-- The one write that lies in a described task is that of an executor that is
described to write. -/
lemma task_writesOnly (spec : ExecutorSpec) (store : StoreHandle) (input : Json) :
    (spec.task store input).WritesOnly fun _ key value next =>
      spec = .storeSet key ∧ value = input ∧ next = .value input := by
  cases spec with
  | echo | template | fail | sleep => trivial
  | command program args =>
    intro left
    cases left <;> trivial
  | storeSet key => exact ⟨⟨rfl, rfl, rfl⟩, trivial⟩

/-- A described call that is about to write is at its beginning, and it writes its input. -/
lemma Describes.of_reaches_write (h : spec.Describes store e) {own : StoreHandle}
    {key : String} {value : Json} {next : Task}
    (hreaches : (e.run input).Reaches (.ready (.write own key value next))) :
    spec = .storeSet key ∧ value = input ∧ e.run input = .write store key value next := by
  rw [h.run] at hreaches ⊢
  obtain ⟨⟨rfl, rfl, rfl⟩, -⟩ := hreaches.writesOnly (spec.task_writesOnly store input)
  exact ⟨rfl, rfl, rfl⟩

end ExecutorSpec

/-! ## Lives -/

namespace Plan

variable {p : Plan} {handle : StoreHandle} {f : Workflow}

/-- The workflow of a plan has the store of the plan, and its executors are named
in the plan. -/
lemma of_assemble (h : p.assemble handle = .ok f) :
    f.store = p.seed ∧
      ∀ e ∈ f.executors, ∃ s ∈ p.steps, ∃ spec, s.Names spec ∧
      spec.Describes f.handle e := by
  obtain ⟨f', hf', -, hdescribes, hexecutors⟩ :=
    exists_describes ((exists_assemble_iff handle).mp ⟨f, h⟩) handle
  obtain rfl : f' = f := Except.ok.inj (hf'.symm.trans h)
  refine ⟨hdescribes.store, ?_⟩
  intro e he
  obtain ⟨spec, hspec, hdescribes⟩ := ExecutorSpec.exists_spec hexecutors he
  obtain ⟨s, hs, hspec⟩ := List.mem_flatMap.mp hspec
  exact ⟨s, hs, spec, StepSpec.mem_executors_iff.mp hspec, hdescribes⟩

/-- What holds at every moment of the store of a plan's workflow. -/
structure Frames (p : Plan) (f : Workflow) (w : World) : Prop where
  /-- The entries of the plan are there. -/
  seeded : ∀ key, (p.seed.get? key).isSome → (w.workflow.store.get? key).isSome
  /-- What is there is an entry of the plan, or the plan names an executor
  that writes it. -/
  named : ∀ key, (w.workflow.store.get? key).isSome →
    (p.seed.get? key).isSome ∨ p.Stores key
  /-- What no such executor writes is as it was. -/
  untouched : ∀ key, ¬ p.Stores key → w.workflow.store.get? key = p.seed.get? key
  /-- Each key has the value of the plan, or that of the last write under it. -/
  last : ∀ key,
    (∀ e ∈ w.writes, e.1 ≠ key) ∧ w.workflow.store.get? key = p.seed.get? key ∨
    ∃ front input back, w.writes = front ++ (key, input) :: back ∧ (∀ e ∈ back, e.1 ≠ key) ∧
      w.workflow.store.get? key = some input
  /-- What has been written under a key is the input of a call that was described
  to write it. -/
  source : ∀ key input, (key, input) ∈ w.writes → p.Stores key ∧
    ∃ e ∈ f.executors, (ExecutorSpec.storeSet key).Describes f.handle e ∧
    (e, input) ∈ w.calls
  /-- Such a call has written its input, unless it has not acted yet. -/
  executed : ∀ e input key, (e, input) ∈ w.calls →
    (ExecutorSpec.storeSet key).Describes f.handle e →
    (key, input) ∈ w.writes ∨ w.Awaits (e, input)

/-- Where a write comes from in the workflow of a plan. -/
lemma stores_of_reaches (hassemble : p.assemble handle = .ok f) {e : Executor}
    (he : e ∈ f.executors) {own : StoreHandle} {input value : Json}
    {key : String} {next : Task}
    (hreaches : (e.run input).Reaches (.ready (.write own key value next))) :
    p.Stores key ∧ (ExecutorSpec.storeSet key).Describes f.handle e ∧ value = input ∧
      e.run input = .write f.handle key value next := by
  obtain ⟨s, hs, spec, hnames, hdescribes⟩ := (of_assemble hassemble).2 e he
  obtain ⟨rfl, hvalue, hrun⟩ := hdescribes.of_reaches_write hreaches
  exact ⟨⟨s, hs, hnames⟩, hdescribes, hvalue, hrun⟩

lemma frames_of_accounted (hassemble : p.assemble handle = .ok f) {w : World}
    (hw : w.Accounted) (hhandle : w.workflow.handle = f.handle)
    (hexecutors : w.workflow.executors = f.executors)
    (hstore : w.workflow.store = p.seed.setAll w.writes) : p.Frames f w := by
  have hsource : ∀ key input, (key, input) ∈ w.writes → p.Stores key ∧
      ∃ e ∈ f.executors, (ExecutorSpec.storeSet key).Describes f.handle e ∧
      (e, input) ∈ w.calls := by
    intro key input hwrite
    obtain ⟨⟨e, input'⟩, hcall, next, hreaches⟩ := hw.source (key, input) hwrite
    have he : e ∈ f.executors := hexecutors ▸ hw.known _ hcall
    obtain ⟨hstores, hdescribes, rfl, -⟩ := stores_of_reaches hassemble he hreaches
    exact ⟨hstores, e, he, hdescribes, hcall⟩
  have hlast : ∀ key,
      (∀ e ∈ w.writes, e.1 ≠ key) ∧ w.workflow.store.get? key = p.seed.get? key ∨
      ∃ front input back, w.writes = front ++ (key, input) :: back ∧
        (∀ e ∈ back, e.1 ≠ key) ∧
        w.workflow.store.get? key = some input := by
    intro key
    rw [hstore]
    exact p.seed.get?_setAll key w.writes
  -- A key that has been written is one that the plan writes, so all others were
  -- never written.
  have huntouched : ∀ key, ¬ p.Stores key →
      w.workflow.store.get? key = p.seed.get? key := by
    intro key hnot
    rcases hlast key with ⟨-, hget⟩ | ⟨front, input, back, hwrites, -, -⟩
    · exact hget
    · have hwrite : (key, input) ∈ w.writes := by simp [hwrites]
      exact absurd (hsource key input hwrite).1 hnot
  exact {
    seeded := by
      intro key hseed
      rcases hlast key with ⟨-, hget⟩ | ⟨front, input, back, -, -, hget⟩
      · rwa [hget]
      · rw [hget]
        rfl
    named := by
      intro key hpresent
      apply or_iff_not_imp_right.mpr
      intro hnot
      rwa [← huntouched key hnot]
    untouched := huntouched
    last := hlast
    source := hsource
    executed := by
      intro e input key hcall hdescribes
      have hrun : e.run input = .write w.workflow.handle key input (.value input) := by
        rw [hdescribes.run, hhandle]
        rfl
      exact hw.written (e, input) hcall key input _ hrun }

/-- What is written by what happens is the input of a call that was described
to write it. -/
lemma stores_of_write (hassemble : p.assemble handle = .ok f) {w : World} {L : Ledger}
    (hw : w.Accounted) (hbooks : Books L w) (hhandle : w.workflow.handle = f.handle)
    (hexecutors : w.workflow.executors = f.executors) {h : Happening}
    {key : String} {input : Json} (hwrite : h.write? w = some (key, input)) :
    w.Stores key input h := by
  cases h with
  | choose c =>
    obtain ⟨⟨e, input'⟩, hcall, next, hreaches, hready⟩ := hw.writer hbooks.executing hwrite
    have he : e ∈ f.executors := hexecutors ▸ hw.known _ hcall
    obtain ⟨-, hdescribes, rfl, hrun⟩ := stores_of_reaches hassemble he hreaches
    refine ⟨e, hcall, by rwa [hhandle], ?_⟩
    rwa [hrun, ← hhandle]
  | run | startLoop | endLoop => cases hwrite

/-- The frame of the store, over a whole life of a plan's workflow.  Whatever happened
before, the store consists of the entries of the plan and of what calls have written that
were described to write, each of them its own input (`Plan.Frames`).  Whatever happens
next either leaves the store as it is or is the action in which such a call writes; so
nothing else takes an entry away or brings one back, at any later time. -/
theorem store_in_life (hassemble : p.assemble handle = .ok f) (host : Host)
    {hs : List Happening} {H : History}
    (hlive : (⟨{ host, workflow := f }, {}⟩ : History).live hs = some H) :
    p.Frames f H.world ∧
    (∀ h H', H.next h = some H' →
      H'.world.workflow.store = H.world.workflow.store ∧ H'.world.writes = H.world.writes ∨
      ∃ key input, H.world.Stores key input h ∧
        H'.world.workflow.store = H.world.workflow.store.set key input ∧
        H'.world.writes = H.world.writes ++ [(key, input)]) ∧
    ∀ hs' H', H.live hs' = some H' → ∃ made, World.Wrote H.world H'.world made := by
  have hbooks : Books H.ledger H.world := History.live_books hlive (Books.new rfl rfl)
  have hw : World.Accounted H.world :=
    History.live_accounted hlive (Books.new rfl rfl) (World.Accounted.new rfl rfl rfl)
  have hsetup : World.SameSetup { host, workflow := f } H.world := History.live_setup hlive
  have hexecutors : H.world.workflow.executors = f.executors :=
    congrArg (List.flatMap Step.executors) hsetup.steps
  have hstore : H.world.workflow.store = p.seed.setAll H.world.writes := by
    obtain ⟨made, hmade⟩ := History.live_wrote hlive
    have hwrites : H.world.writes = made := hmade.writes
    rw [hmade.store, hwrites, ← (of_assemble hassemble).1]
  refine ⟨frames_of_accounted hassemble hw hsetup.handle hexecutors hstore, ?_,
    fun hs' H' => History.live_wrote⟩
  intro h H' hnext
  have hwrote := History.next_wrote hnext
  cases hwrite : h.write? H.world with
  | none =>
    rw [hwrite] at hwrote
    exact .inl ⟨hwrote.store, hwrote.writes.trans (List.append_nil _)⟩
  | some e =>
    obtain ⟨key, input⟩ := e
    rw [hwrite] at hwrote
    have hstores := stores_of_write hassemble hw hbooks hsetup.handle hexecutors hwrite
    exact .inr ⟨key, input, hstores, hwrote.store, hwrote.writes⟩

/-- A plan with a step that fails while one of its calls is going to write; the handler
writes, too. -/
def tardyPlan : Plan where
  name := "tardy"
  prompt := some "x"
  seed := (Store.empty.set "k" .null).set "q" (.str "y")
  steps := [⟨none, none, some (.storeSet "r"), .parallel [.fail "no", .storeSet "k"]⟩]

/-- A run of its workflow, to its end. -/
def tardySchedule : List Choice :=
  List.replicate 3 .run ++ [.job 0, .collect 0] ++ List.replicate 9 .run

/-- When the run has ended the call has not written yet, and when it acts afterwards it
does; what nobody writes is as it was. -/
theorem store_in_life_tardy :
    ∃ f H H', tardyPlan.assemble = .ok f ∧
      (⟨{ host := fun _ _ => .refused "", workflow := f }, {}⟩ : History).live
        (.run .absent :: tardySchedule.map .choose) = some H ∧
      H.next (.choose (.job 1)) = some H' ∧ H.world.progress.isOver = true ∧
      H.world.workflow.store.get? "k" = some .null ∧
      H'.world.workflow.store.get? "k" = some (.str "x") ∧
      H.world.workflow.store.get? "q" = some (.str "y") := by
  obtain ⟨f, H, H', hassemble, hlive, hnext, hover, hbefore, hafter⟩ : ∃ f H H',
    tardyPlan.assemble = .ok f ∧
      (⟨{ host := fun _ _ => .refused "", workflow := f }, {}⟩ : History).live
        (.run .absent :: tardySchedule.map .choose) = some H ∧
      H.next (.choose (.job 1)) = some H' ∧ H.world.progress.isOver = true ∧
      H.world.workflow.store.get? "k" = some .null ∧
      H'.world.workflow.store.get? "k" = some (.str "x") :=
    ⟨_, _, _, rfl, rfl, rfl, rfl, rfl, rfl⟩
  have hnot : ¬ tardyPlan.Stores "q" := by
    rintro ⟨s, hs, hnames⟩
    obtain rfl := List.mem_singleton.mp hs
    have hspec := StepSpec.mem_executors_iff.mpr hnames
    simp [StepSpec.executors, StepSpec.bodyExecutors] at hspec
  obtain ⟨hframes, -, -⟩ := store_in_life hassemble _ hlive
  exact ⟨f, H, H', hassemble, hlive, hnext, hover, hbefore, hafter,
    hframes.untouched "q" hnot⟩

end Plan
end Workplan
