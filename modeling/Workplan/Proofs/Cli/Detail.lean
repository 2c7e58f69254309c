import Mathlib.Tactic.Lemma
import Workplan.Cli.LogFilter

/-!
# How detailed the log is

Which events a directive shows is up to the filter of the log.  Of it nothing is used here
but that the name of a level shows all events up to that level.  More flags for verbosity
choose a directive that shows no less, unless they displace one of the configuration
(`Filtering.within_choose`).
-/

namespace Workplan.LogFilter

/-- How detailed an event of the log is. -/
inductive Detail where
  | error
  | warn
  | info
  | debug
  | trace
deriving DecidableEq

/-- The directive that shows the events up to a detail. -/
def Detail.name : Detail → String
  | error => "error"
  | warn => "warn"
  | info => "info"
  | debug => "debug"
  | trace => "trace"

/-- The number of a detail, which is greater the more detailed an event is. -/
def Detail.rank : Detail → Nat
  | error => 0
  | warn => 1
  | info => 2
  | debug => 3
  | trace => 4

/-- A filter of the log: which events a directive shows.  The name of a level shows all
events up to that level. -/
structure Filtering where
  Event : Type
  detail : Event → Detail
  Shows : String → Event → Prop
  shows_name (d : Detail) (e : Event) : Shows d.name e ↔ (detail e).rank ≤ d.rank

namespace Filtering

/-- The filter that knows nothing but levels. -/
def ofLevels : Filtering where
  Event := Detail
  detail := id
  Shows directive e := ∃ d : Detail, d.name = directive ∧ e.rank ≤ d.rank
  shows_name d e := by
    constructor
    · rintro ⟨d', hname, hrank⟩
      have heq : d' = d := by
        revert hname
        cases d' <;> cases d <;> decide
      exact heq ▸ hrank
    · exact fun hrank => ⟨d, rfl, hrank⟩

/-- Whether a directive shows no more than another one. -/
def Within (F : Filtering) (directive directive' : String) : Prop :=
  ∀ e, F.Shows directive e → F.Shows directive' e

variable {F : Filtering} {d d' : Detail} {directive : String} {n m : Nat}

/-- What a level of less detail lets pass, one of more detail lets pass. -/
lemma within_name (h : d.rank ≤ d'.rank) : F.Within d.name d'.name := by
  intro e he
  rw [F.shows_name] at he ⊢
  exact Nat.le_trans he h

lemma Within.trans {directive' directive'' : String} (h : F.Within directive directive')
    (h' : F.Within directive' directive'') : F.Within directive directive'' :=
  fun e he => h' e (h e he)

/-- The detail for a count of verbosity flags. -/
lemma exists_ofVerbosity_eq (n : Nat) : ∃ d :
    Detail, ofVerbosity n = d.name ∧ d.rank = min (n + 1) 4 := by
  match n with
  | 0 => exact ⟨.warn, rfl, rfl⟩
  | 1 => exact ⟨.info, rfl, rfl⟩
  | 2 => exact ⟨.debug, rfl, rfl⟩
  | n + 3 => exact ⟨.trace, rfl, by rw [Detail.rank]; omega⟩

/-- More letters never ask for less detail. -/
lemma within_ofVerbosity (h : n ≤ m) : F.Within (ofVerbosity n) (ofVerbosity m) := by
  obtain ⟨d, hd, hrank⟩ := exists_ofVerbosity_eq n
  obtain ⟨d', hd', hrank'⟩ := exists_ofVerbosity_eq m
  rw [hd, hd']
  exact within_name (by omega)

lemma choose_succ (n : Nat) (quiet : Bool) (configured : Option String) :
    choose (n + 1) quiet configured = ofVerbosity (n + 1) := by
  rw [choose] <;> nofun

/-- With a greater count of verbosity flags no less is shown, unless a directive of the
configuration is no longer in use that shows more than the first flag does. -/
theorem within_choose {quiet : Bool} {configured : Option String} (h : n ≤ m)
    (hconfigured : n = 0 → quiet = false → ∀ directive, configured = some directive →
      F.Within directive (Detail.name .info)) :
    F.Within (choose n quiet configured) (choose m quiet configured) := by
  cases m with
  | zero => exact Nat.le_zero.mp h ▸ fun _ he => he
  | succ m =>
    -- With any flag at all, what is shown is at least what the first one shows.
    have hinfo : F.Within (Detail.name .info) (ofVerbosity (m + 1)) :=
      within_ofVerbosity (n := 1) (by omega)
    rw [choose_succ]
    cases n with
    | succ n =>
      rw [choose_succ]
      exact within_ofVerbosity h
    | zero =>
      cases quiet with
      | true => exact (within_name (d := .error) (Nat.zero_le _)).trans hinfo
      | false =>
        cases configured with
        | none => exact within_ofVerbosity h
        | some directive => exact (hconfigured rfl rfl directive rfl).trans hinfo

end Filtering

end Workplan.LogFilter
