import Mathlib.Tactic.Lemma
import Workplan.Proofs.Executor.Template
import Workplan.Proofs.Json.Readable
import Workplan.Proofs.Text.Utf8

/-!
# Rendered inputs

An input that is no string enters a program or a template as its compact text, which is no
other value's text.  So two different inputs that are no strings never look the same:
neither on the standard input of a program nor in a template that they fill anywhere
(`Json.renders_apart`).  A string stands for itself and looks like another input exactly
if it is the compact text of that input.
-/

namespace Workplan

namespace Json

/-- What is no string is rendered as its compact text. -/
lemma render_eq_compact {v : Json} (h : ∀ s, v ≠ .str s) : v.render = v.compact := by
  cases v with
  | str s => exact absurd rfl (h s)
  | _ => rfl

end Json

namespace Template

lemma length_intercalate (sep p : List Char) (ps : List (List Char)) :
    (sep.intercalate (p :: ps)).length = (p :: ps).flatten.length +
      ps.length * sep.length := by
  induction ps generalizing p with
  | nil => simp [List.intercalate_singleton]
  | cons p' ps ih =>
    have hflatten : (p :: p' :: ps).flatten.length = p.length +
        (p' :: ps).flatten.length := List.length_append
    rw [List.intercalate_cons_cons, List.length_append, List.length_append, ih p',
      hflatten, List.length_cons, Nat.succ_mul]
    omega

/-- Between the same parts, of which there are two at least, stand the same texts. -/
lemma intercalate_inj {sep sep' : List Char} {p q : List Char} {ps : List (List Char)}
    (h : sep.intercalate (p :: q :: ps) = sep'.intercalate (p :: q :: ps)) :
    sep = sep' := by
  have hlength := congrArg List.length h
  rw [length_intercalate, length_intercalate, List.length_cons] at hlength
  have hsame : sep.length = sep'.length :=
    Nat.eq_of_mul_eq_mul_left (Nat.succ_pos ps.length) (Nat.add_left_cancel hlength)
  rw [List.intercalate_cons_cons, List.intercalate_cons_cons, List.append_assoc,
    List.append_assoc] at h
  exact (List.append_inj (List.append_cancel_left h) hsame).1

/-- What a template with a placeholder is filled with can be told from the result. -/
lemma fillChars_inj {t : List Char} (ht : placeholder <:+: t) {value value' : List Char}
    (h : fillChars value t = fillChars value' t) : value = value' := by
  rw [fillChars_eq, fillChars_eq] at h
  have hjoined := intercalate_pieces t
  cases hpieces : pieces t with
  | nil => exact absurd hpieces (pieces_ne_nil t)
  | cons p ps =>
    cases ps with
    | nil =>
      -- A single piece is the whole template.
      rw [hpieces, List.intercalate_singleton] at hjoined
      rw [← hjoined] at ht
      exact absurd ht
        (not_infix_of_mem_pieces (t := t) (by rw [hpieces]; exact List.mem_cons_self))
    | cons q ps =>
      rw [hpieces] at h
      exact intercalate_inj h

end Template

/-- Two inputs that are no strings are rendered alike only if they are the same, so
neither the input of a program, as characters or as bytes, nor a filled template confuses
them.  A string is rendered as it is, and like another input exactly if it is the compact
text of that input. -/
theorem Json.renders_apart (v w : Json) (hv : ∀ s, v ≠ .str s) (hw : ∀ s, w ≠ .str s) :
    (v.render = w.render → v = w) ∧
    (∀ s, (Json.str s).render = s ∧ ((Json.str s).render = v.render ↔ s = v.compact)) ∧
    (Text.Utf8.encode v.render = Text.Utf8.encode w.render → v = w) ∧
    (∀ c : Command, c.task v = c.task w → v = w) ∧
    (∀ t store, Template.placeholder <:+: t.toList →
      (ExecutorSpec.template t).task store v = (ExecutorSpec.template t).task store w →
      v = w) := by
  have hapart : v.render = w.render → v = w := by
    rw [render_eq_compact hv, render_eq_compact hw]
    exact compact_inj.mp
  refine ⟨hapart, fun s => ⟨rfl, ?_⟩, fun h => hapart ?_, fun c h => hapart ?_,
    fun t store ht h => hapart ?_⟩
  · rw [render_eq_compact hv]
    exact Iff.rfl
  · exact Text.Utf8.encode_inj h
  · simp only [Command.task, Task.log.injEq, Task.launch.injEq] at h
    exact h.2.2.1
  · simp only [ExecutorSpec.task, Task.value, Task.finish.injEq, Except.ok.injEq,
      Json.str.injEq] at h
    have hchars := Template.fillChars_inj ht (String.ofList_inj.mp h)
    exact String.toList_inj.mp hchars

/-- One text with quotes and a comma in it, and two texts. -/
theorem Json.renders_apart_quoted :
    Text.Utf8.encode (Json.arr [.str "a\",\"b"]).render ≠ Text.Utf8.encode
      (Json.arr [.str "a", .str "b"]).render ∧
    (ExecutorSpec.template "\x7b\x7binput\x7d\x7d,\x7b\x7binput\x7d\x7d").task {}
      (.arr [.str "a\",\"b"])
      ≠ (ExecutorSpec.template "\x7b\x7binput\x7d\x7d,\x7b\x7binput\x7d\x7d").task {}
        (.arr [.str "a", .str "b"]) ∧
    (Json.str "[\"a\",\"b\"]").render = (Json.arr [.str "a", .str "b"]).render := by
  have hdiffer : Json.arr [.str "a\",\"b"] ≠ .arr [.str "a", .str "b"] := by
    intro h
    injection h with h
    exact absurd (congrArg List.length h) (by decide)
  obtain ⟨-, -, hbytes, -, htemplate⟩ :=
    renders_apart (.arr [.str "a\",\"b"]) (.arr [.str "a", .str "b"])
    (fun s h => by cases h) (fun s h => by cases h)
  obtain ⟨-, hstring, -⟩ :=
    renders_apart (.arr [.str "a", .str "b"]) .null (fun s h => by cases h)
    (fun s h => by cases h)
  exact ⟨fun h => hdiffer (hbytes h), fun h => hdiffer (htemplate _ _ (by decide) h),
    (hstring _).2.mpr (by decide)⟩

end Workplan
