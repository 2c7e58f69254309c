import Mathlib.Data.Finset.Card
import Mathlib.Data.Finset.Dedup
import Mathlib.Tactic.Lemma
import Workplan.Proofs.Document.Named
import Workplan.Proofs.Text.Utf8
import Workplan.Store.Calls

/-!
# Histories of stores

A *history* is the calls that tasks make through handles, one after another, in whatever
order the tasks take turns.  All that a store can answer is fixed by the writes that were
made on it before, through whichever of its handles (`Answers`): what a key stands for is
the value that was last written under it, and the keys are those that were written, each
once, in the order of their UTF-8 bytes (`Handles.histories_refine_map`).  Writes on other
stores do not count, and tasks that write different keys cannot take each other's entries
away, whatever their order.

The step is `Handles.Holds.call`: if every store holds what was written on it, then it
does after one more call.
-/

namespace Workplan

/-- A call that a task makes through a handle. -/
structure Request where
  task : Nat
  handle : Nat
  call : StoreCall

namespace Handles

/-- The handles after a history. -/
def after (h : Handles) (history : List Request) : Handles :=
  history.foldl (fun h r => (h.call r.handle r.call).1) h

/-- What the calls of a history answer. -/
def answers (h : Handles) : List Request → List StoreAnswer
  | [] => []
  | r :: rest => (h.call r.handle r.call).2 :: answers (h.call r.handle r.call).1 rest

end Handles

/-! ## Writes -/

/-- What a call writes. -/
def StoreCall.write? : StoreCall → Option (String × Json)
  | .set key value => some (key, value)
  | _ => none

/-- What a request writes on a store. -/
def Request.writeOn? (owner : Nat → Nat) (n : Nat) (r : Request) : Option (String × Json) :=
  if owner r.handle = n then r.call.write? else none

/-- The writes on a store in a history, in their order. -/
def writesOn (owner : Nat → Nat) (n : Nat) (history : List Request) :
    List (String × Json) :=
  history.filterMap (Request.writeOn? owner n)

/-- The value that was last written under a key. -/
def lastWrite? (key : String) (writes : List (String × Json)) : Option Json :=
  writes.reverse.lookup key

lemma writesOn_cons (owner : Nat → Nat) (n : Nat) (r : Request) (history : List Request) :
    writesOn owner n (r :: history) = (r.writeOn? owner n).toList ++
      writesOn owner n history := by
  rw [writesOn, List.filterMap_cons]
  cases r.writeOn? owner n <;> rfl

/-- A later write counts more than an earlier one. -/
lemma lastWrite?_append (key : String) (writes later : List (String × Json)) :
    lastWrite? key (writes ++ later) = (lastWrite? key later).or
      (lastWrite? key writes) := by
  rw [lastWrite?, List.reverse_append, List.lookup_append]
  rfl

lemma lastWrite?_singleton (key : String) (e : String × Json) :
    lastWrite? key [e] = if e.1 = key then some e.2 else none := by
  show [e].lookup key = _
  split
  · next h =>
    subst h
    exact Fields.lookup_cons_self e.1 e.2 []
  · next h => exact Fields.lookup_cons_of_ne [] h

/-- Something was last written under a key exactly if something was written. -/
lemma isSome_lastWrite?_iff {key : String} {writes : List (String × Json)} :
    (lastWrite? key writes).isSome = true ↔ key ∈ writes.map Prod.fst := by
  rw [lastWrite?, List.lookup_isSome_iff, List.mem_map]
  constructor
  · rintro ⟨e, he, hkey⟩
    exact ⟨e, List.mem_reverse.mp he, (beq_iff_eq.mp hkey).symm⟩
  · rintro ⟨e, he, rfl⟩
    exact ⟨e, List.mem_reverse.mpr he, beq_self_eq_true _⟩

/-! ## What may be answered -/

/-- The right answers to a call on a store on which certain writes have been made. -/
inductive Answers (writes : List (String × Json)) : StoreCall → StoreAnswer → Prop where
  | set {key : String} {value : Json} {size : Nat}
      (count : size = ((writes ++ [(key, value)]).map Prod.fst).toFinset.card) :
      Answers writes (.set key value) (.written size)
  | get {key : String} : Answers writes (.get key) (.value (lastWrite? key writes))
  | contains {key : String} {b : Bool} (written : b = true ↔ key ∈ writes.map Prod.fst) :
      Answers writes (.contains key) (.truth b)
  | size {size : Nat} {isEmpty : Bool} (count : size = (writes.map Prod.fst).toFinset.card)
      (unwritten : isEmpty = true ↔ writes = []) : Answers writes .size
        (.counted size isEmpty)
  | keys {keys : List String}
      (increasing : keys.Pairwise fun key key' =>
        Text.Utf8.encode key < Text.Utf8.encode key')
      (written : ∀ key, key ∈ keys ↔ key ∈ writes.map Prod.fst) : Answers writes .keys
        (.names keys)
  | snapshot {entries : List (String × Json)}
      (increasing : entries.Pairwise fun e e' =>
        Text.Utf8.encode e.1 < Text.Utf8.encode e'.1)
      (latest : ∀ key, entries.lookup key = lastWrite? key writes) : Answers writes
        .snapshot (.whole entries)

/-! ## Stores that hold what was written -/

namespace Store

/-- A store holds some writes if every key stands for the value that was last
written under it. -/
def Holds (s : Store) (writes : List (String × Json)) : Prop :=
  ∀ key, s.get? key = lastWrite? key writes

variable {s : Store} {writes : List (String × Json)}

lemma holds_empty : empty.Holds [] :=
  fun _ => rfl

/-- A store that holds some writes holds one more after it. -/
lemma Holds.set (h : s.Holds writes) (key : String) (value : Json) :
    (s.set key value).Holds (writes ++ [(key, value)]) := by
  intro other
  rw [lastWrite?_append, lastWrite?_singleton]
  by_cases heq : other = key
  · subst heq
    rw [get?_set_self, if_pos rfl]
    rfl
  · rw [get?_set_of_ne s value heq, if_neg (Ne.symm heq), h other]
    rfl

/-- A call adds what it writes. -/
lemma Holds.after (h : s.Holds writes) (c : StoreCall) :
    (s.after c).Holds (writes ++ c.write?.toList) := by
  cases c with
  | set key value => exact h.set key value
  | _ => exact (List.append_nil writes).symm ▸ h

/-- The listed keys are those that have a value. -/
lemma mem_keys_iff {key : String} : key ∈ s.keys ↔ (s.get? key).isSome = true := by
  rw [get?, Fields.lookup_eq, List.lookup_isSome_iff, keys, List.mem_map]
  constructor
  · rintro ⟨e, he, rfl⟩
    exact ⟨e, he, beq_self_eq_true _⟩
  · rintro ⟨e, he, hkey⟩
    exact ⟨e, he, (beq_iff_eq.mp hkey).symm⟩

/-- The keys of a store are those that were written. -/
lemma Holds.mem_keys_iff (h : s.Holds writes) (key : String) :
    key ∈ s.keys ↔ key ∈ writes.map Prod.fst := by
  rw [Store.mem_keys_iff, h key, isSome_lastWrite?_iff]

/-- The names of a store increase, byte by byte. -/
lemma increasing (s : Store) :
    s.entries.Pairwise fun e e' => Text.Utf8.encode e.1 < Text.Utf8.encode e'.1 :=
  s.ordered.imp fun h => Text.Utf8.encode_lt_encode_iff.mpr h

/-- A store has as many names as different keys were written. -/
lemma Holds.size_eq (h : s.Holds writes) :
    s.size = (writes.map Prod.fst).toFinset.card := by
  have hnodup : s.keys.Nodup := Fields.Ordered.distinct s.ordered
  have hsame : s.keys.toFinset = (writes.map Prod.fst).toFinset := by
    ext key
    rw [List.mem_toFinset, List.mem_toFinset, h.mem_keys_iff]
  rw [← hsame, List.toFinset_card_of_nodup hnodup, keys, List.length_map]
  rfl

lemma Holds.isEmpty_iff (h : s.Holds writes) : s.isEmpty = true ↔ writes = [] := by
  rw [isEmpty, List.isEmpty_iff]
  have hkeys : s.entries = [] ↔ s.keys = [] := by rw [keys, List.map_eq_nil_iff]
  rw [hkeys, List.eq_nil_iff_forall_not_mem]
  constructor
  · intro hnone
    by_contra hne
    obtain ⟨e, he⟩ := List.exists_mem_of_ne_nil writes hne
    exact hnone e.1 ((h.mem_keys_iff e.1).mpr (List.mem_map_of_mem he))
  · rintro rfl key hkey
    cases (h.mem_keys_iff key).mp hkey

/-- A store that holds the writes gives the right answers. -/
lemma Holds.answer (h : s.Holds writes) (c : StoreCall) :
    Answers writes c (s.answer c) := by
  cases c with
  | set key value => exact .set (h.set key value).size_eq
  | get key =>
    show Answers writes (.get key) (.value (s.get? key))
    rw [h key]
    exact .get
  | contains key =>
    refine .contains ?_
    rw [contains, h key, isSome_lastWrite?_iff]
  | size => exact .size h.size_eq h.isEmpty_iff
  | keys => exact .keys (List.pairwise_map.mpr s.increasing) h.mem_keys_iff
  | snapshot =>
    refine .snapshot s.increasing fun key => ?_
    rw [← Fields.lookup_eq]
    exact h key

end Store

/-! ## One call after another -/

namespace Handles

variable {h : Handles} {writes : Nat → List (String × Json)}

/-- Every store holds what was written on it. -/
def Holds (h : Handles) (writes : Nat → List (String × Json)) : Prop :=
  ∀ n, (h.stores n).Holds (writes n)

lemma holds_fresh (owner : Nat → Nat) : (fresh owner).Holds fun n => writesOn owner n [] :=
  fun _ => Store.holds_empty

/-- A call adds what it writes to the store behind the handle, and nothing to any
other store. -/
theorem Holds.call (hholds : h.Holds writes) (r : Request) :
    (h.call r.handle r.call).1.Holds fun n =>
      writes n ++ (r.writeOn? h.owner n).toList := by
  intro n
  show (if n = h.owner r.handle then (h.store r.handle).after r.call else h.stores n).Holds
    (writes n ++ (if h.owner r.handle = n then r.call.write? else none).toList)
  by_cases hn : n = h.owner r.handle
  · subst hn
    rw [if_pos rfl, if_pos rfl]
    exact (hholds _).after r.call
  · rw [if_neg hn, if_neg (Ne.symm hn)]
    exact (List.append_nil (writes n)).symm ▸ hholds n

/-- A whole history adds what it writes. -/
lemma Holds.after (hholds : h.Holds writes) (history : List Request) :
    (h.after history).Holds fun n => writes n ++ writesOn h.owner n history := by
  induction history generalizing h writes with
  | nil =>
    intro n
    show (h.stores n).Holds (writes n ++ [])
    rw [List.append_nil]
    exact hholds n
  | cons r rest ih =>
    intro n
    show ((h.after (r :: rest)).stores n).Holds (writes n ++ writesOn h.owner n (r :: rest))
    rw [writesOn_cons, ← List.append_assoc]
    exact ih (hholds.call r) n

/-- After a history every store holds what was written on it. -/
lemma holds_after (owner : Nat → Nat) (history : List Request) :
    ((fresh owner).after history).Holds fun n => writesOn owner n history :=
  (holds_fresh owner).after history

@[simp] theorem owner_after (h : Handles) (history : List Request) :
    (h.after history).owner = h.owner := by
  induction history generalizing h with
  | nil => rfl
  | cons r rest ih => exact ih _

/-- What is asked later is answered from what has been done before. -/
lemma answers_append (h : Handles) (history later : List Request) :
    h.answers (history ++ later) = h.answers history ++
      (h.after history).answers later := by
  induction history generalizing h with
  | nil => rfl
  | cons r rest ih =>
    show _ :: answers _ (rest ++ later) = _
    rw [ih]
    rfl

@[simp] theorem length_answers (h : Handles) (history : List Request) :
    (h.answers history).length = history.length := by
  induction history generalizing h with
  | nil => rfl
  | cons r rest ih => exact congrArg (· + 1) (ih _)

/-- What the last call of a history answers. -/
lemma call_after (owner : Nat → Nat) (history : List Request)
    (handle : Nat) (c : StoreCall) :
    Answers (writesOn owner (owner handle) history) c
      (((fresh owner).after history).call handle c).2 := by
  have hstore : ((fresh owner).after history).store handle =
      ((fresh owner).after history).stores (owner handle) := by
    rw [store, owner_after]
    rfl
  show Answers _ c ((((fresh owner).after history).store handle).answer c)
  rw [hstore]
  exact (holds_after owner history (owner handle)).answer c

/-- Each call is answered by the writes that were made on its store before. -/
lemma answers_right (owner : Nat → Nat) (history : List Request) {i : Nat} {r : Request}
    (hr : history[i]? = some r) :
    ∃ a, ((fresh owner).answers history)[i]? = some a ∧
      Answers (writesOn owner (owner r.handle) (history.take i)) r.call a := by
  obtain ⟨hi, rfl⟩ := List.getElem?_eq_some_iff.mp hr
  refine ⟨_, ?_, call_after owner (history.take i) history[i].handle history[i].call⟩
  -- The answer in place `i` is the one given after the calls in front of it.
  have hsplit : history = history.take i ++ history[i] :: history.drop (i + 1) := by
    rw [← List.drop_eq_getElem_cons hi, List.take_append_drop]
  have hlength : ((fresh owner).answers (history.take i)).length = i := by
    rw [length_answers, List.length_take, Nat.min_eq_left (Nat.le_of_lt hi)]
  conv => lhs; rw [hsplit, answers_append]
  rw [List.getElem?_append_right (by omega), hlength, Nat.sub_self]
  rfl

/-! ## What a call leaves alone -/

lemma store_call (h : Handles) (handle handle' : Nat) (c : StoreCall) :
    (h.call handle c).1.store handle' =
      if h.owner handle' = h.owner handle then (h.store handle).after c
      else h.store handle' := rfl

/-- A write changes no other key, through whichever handle it is read. -/
lemma get_call_set_of_ne (h : Handles) (handle handle' : Nat) {key other : String}
    (value : Json) (hne : other ≠ key) :
    ((h.call handle (.set key value)).1.call handle' (.get other)).2 =
      (h.call handle' (.get other)).2 := by
  show StoreAnswer.value (((h.call handle (.set key value)).1.store handle').get? other) =
    .value ((h.store handle').get? other)
  rw [store_call]
  split
  · next hsame =>
    show StoreAnswer.value (((h.store handle).set key value).get? other) = _
    rw [Store.get?_set_of_ne _ value hne, store, store, hsame]
  · rfl

/-- A call changes no other store. -/
lemma call_call_of_ne (h : Handles) {handle handle' : Nat} (c c' : StoreCall)
    (hne : h.owner handle' ≠ h.owner handle) :
    ((h.call handle c).1.call handle' c').2 = (h.call handle' c').2 := by
  show ((h.call handle c).1.store handle').answer c' = _
  rw [store_call, if_neg hne]
  rfl

/-- Through handles of one store, the keys are those of the snapshot. -/
lemma keys_eq_snapshot (h : Handles) {handle handle' : Nat}
    (hsame : h.owner handle' = h.owner handle) :
    ∃ entries, (h.call handle .snapshot).2 = .whole entries ∧
      (h.call handle' .keys).2 = .names (entries.map Prod.fst) := by
  refine ⟨(h.store handle).entries, rfl, ?_⟩
  show StoreAnswer.names (h.store handle').keys = _
  rw [store, store, hsame]
  rfl

/-! ## Tasks that write different keys -/

/-- No two tasks write the same key of a store. -/
def WritersApart (owner : Nat → Nat) (n : Nat) (history : List Request) : Prop :=
  ∀ r ∈ history, ∀ r' ∈ history, ∀ e ∈ r.writeOn? owner n, ∀ e' ∈ r'.writeOn? owner n,
    e.1 = e'.1 → r.task = r'.task

/-- If a key is written by one task only, then the other tasks do not matter for it. -/
lemma lastWrite?_own {owner : Nat → Nat} {n task : Nat} {key : String}
    {history : List Request} (hown : ∀ r ∈ history, ∀ e ∈ r.writeOn? owner n, e.1 = key →
      r.task = task) :
    lastWrite? key (writesOn owner n history) =
      lastWrite? key (writesOn owner n (history.filter (·.task == task))) := by
  induction history with
  | nil => rfl
  | cons r rest ih =>
    rw [List.forall_mem_cons] at hown
    rw [writesOn_cons, lastWrite?_append, ih hown.2, List.filter_cons]
    split
    · rw [writesOn_cons, lastWrite?_append]
    · next hother =>
      have hnone : lastWrite? key (r.writeOn? owner n).toList = none := by
        cases hwrite : r.writeOn? owner n with
        | none => rfl
        | some e =>
          rw [Option.toList_some, lastWrite?_singleton, if_neg]
          intro hkey
          exact hother (beq_iff_eq.mpr (hown.1 e hwrite hkey))
      rw [hnone, Option.or_none]

/-- A task that has written a key finds the value that it has written last, if the others
write other keys. -/
lemma get_own {owner : Nat → Nat} {handle : Nat} {history : List Request}
    (hapart : WritersApart owner (owner handle) history) {task : Nat}
    {key : String} {value : Json}
    (hlast : lastWrite? key
      (writesOn owner (owner handle) (history.filter (·.task == task))) = some value) :
    (((fresh owner).after history).call handle (.get key)).2 = .value (some value) := by
  have hown : ∀ r ∈ history, ∀ e ∈ r.writeOn? owner (owner handle), e.1 = key →
      r.task = task := by
    intro r hr e he hkey
    obtain ⟨e', he', hkey'⟩ :=
      List.mem_map.mp (isSome_lastWrite?_iff.mp (Option.isSome_of_eq_some hlast))
    obtain ⟨r', hr', hwrite⟩ := List.mem_filterMap.mp he'
    obtain ⟨hr', htask⟩ := List.mem_filter.mp hr'
    rw [← beq_iff_eq.mp htask]
    exact hapart r hr r' hr' e he e' hwrite (hkey.trans hkey'.symm)
  have hanswer := call_after owner history handle (.get key)
  rw [← hlast, ← lastWrite?_own hown]
  generalize (((fresh owner).after history).call handle (.get key)).2 = a at hanswer ⊢
  cases hanswer
  rfl

/-! ## Stores as maps -/

/-- In every history, each call is answered by the writes that were made on its store
before, and keeps its answer whatever follows; keys and snapshot agree; a write leaves
other keys alone and a call other stores; and if no two tasks write the same key, each
finds what it has written last. -/
theorem histories_refine_map (owner : Nat → Nat) (history : List Request) :
    (∀ i r, history[i]? = some r → ∃ a, ((fresh owner).answers history)[i]? = some a ∧
      Answers (writesOn owner (owner r.handle) (history.take i)) r.call a) ∧
    (∀ later, (fresh owner).answers history <+: (fresh owner).answers (history ++ later)) ∧
    (∀ handle handle', owner handle' = owner handle → ∃ entries,
      (((fresh owner).after history).call handle .snapshot).2 = .whole entries ∧
      (((fresh owner).after history).call handle' .keys).2 = .names
        (entries.map Prod.fst)) ∧
    (∀ handle handle' key value other, other ≠ key →
      ((((fresh owner).after history).call handle (.set key value)).1.call handle'
        (.get other)).2 =
        (((fresh owner).after history).call handle' (.get other)).2) ∧
    (∀ handle handle' c c', owner handle' ≠ owner handle →
      ((((fresh owner).after history).call handle c).1.call handle' c').2 =
        (((fresh owner).after history).call handle' c').2) ∧
    (∀ handle, WritersApart owner (owner handle) history → ∀ task key value,
      lastWrite? key (writesOn owner (owner handle) (history.filter (·.task == task))) =
        some value →
        (((fresh owner).after history).call handle (.get key)).2 = .value
          (some value)) := by
  have howner : ((fresh owner).after history).owner = owner := owner_after _ history
  refine ⟨fun i r hr => answers_right owner history hr, fun later => ?_,
    fun handle handle' hsame => ?_,
    fun handle handle' key value other hne => get_call_set_of_ne _ handle handle' value hne,
    fun handle handle' c c' hne => ?_, fun handle hapart task key value hlast =>
      get_own hapart hlast⟩
  · rw [answers_append]
    exact List.prefix_append _ _
  · exact keys_eq_snapshot _ (by rw [howner]; exact hsame)
  · exact call_call_of_ne _ c c' (by rw [howner]; exact hne)

/-- Two tasks on two handles of one store, and a third handle on another. -/
def shared (handle : Nat) : Nat :=
  handle / 2

/-- The first task writes one key twice and the second another, which comes behind it in
the order of bytes. -/
def tandem : List Request :=
  [⟨1, 0, .set "z" (.bool true)⟩, ⟨2, 1, .set "é" .null⟩, ⟨2, 0, .snapshot⟩,
    ⟨1, 1, .set "z" (.bool false)⟩, ⟨1, 2, .set "é" (.bool true)⟩, ⟨2, 0, .keys⟩]

theorem histories_refine_map_tandem :
    tandem[2]? = some ⟨2, 0, .snapshot⟩ ∧
    (∃ a, ((fresh shared).answers tandem)[2]? = some a ∧
      Answers [("z", .bool true), ("é", .null)] .snapshot a) ∧
    WritersApart shared 0 tandem ∧
    (((fresh shared).after tandem).call 1 (.get "z")).2 = .value (some (.bool false)) ∧
    (((fresh shared).after tandem).call 0 (.get "é")).2 = .value (some .null) := by
  have hapart : WritersApart shared (shared 1) tandem := by unfold WritersApart; decide
  obtain ⟨hanswers, -, -, -, -, hown⟩ := histories_refine_map shared tandem
  exact ⟨rfl, hanswers 2 _ rfl, hapart, hown 1 hapart 1 "z" _ rfl,
    hown 0 hapart 2 "é" _ rfl⟩

end Handles

end Workplan
