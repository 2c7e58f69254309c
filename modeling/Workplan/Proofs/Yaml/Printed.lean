import Mathlib.Tactic.Lemma
import Workplan.Proofs.Yaml.Printable
import Workplan.Proofs.Yaml.Scalars

/-!
# Printed values in turns

The tokens of a printed value, and the run of the scanner that reads them.  The run
follows the structure of the value (`value_leads`, `items_go`, `fields_go`): a value is
printed behind its key or sign, and whatever follows it starts a line at a column no
deeper than the collection it belongs to.  A list under a key stands in the column of the
key and so has no opening token of its own.
-/

namespace Workplan.Yaml

/-! ## Tokens -/

mutual

/-- The tokens of a printed value behind its key or sign. -/
def valueTokens (afterKey : Bool) : Json → List Token
  | .str s => [.scalar s (styleOf s)]
  | .arr [] => bracketTokens false
  | .arr items =>
    if afterKey then itemTokens items
    else .blockListStart :: (itemTokens items ++ [.blockEnd])
  | .obj [] => bracketTokens true
  | .obj fields => .blockTableStart :: (fieldTokens fields ++ [.blockEnd])
  | v => [.scalar (String.ofList (atomChars v)) .plain]

/-- The tokens of the entries of a list. -/
def itemTokens : List Json → List Token
  | [] => []
  | v :: rest => .blockEntry :: (valueTokens false v ++ itemTokens rest)

/-- The tokens of the entries of a table. -/
def fieldTokens : List (String × Json) → List Token
  | [] => []
  | (name, v) :: rest =>
    .key :: .scalar name (styleOf name) :: .value ::
      (valueTokens (isShortKey name) v ++ fieldTokens rest)

end

/-! ## How parts start -/

/-- Behind its key or sign, a value starts with a blank or on the next line. -/
lemma valueLines_starts (indent : Nat) (afterKey : Bool) (v : Json) :
    ∃ x t, valueLines indent afterKey v = x :: t ∧ (isGap x || isBreak x) = true := by
  match v with
  | .null => exact ⟨' ', _, rfl, by decide⟩
  | .bool _ => exact ⟨' ', _, rfl, by decide⟩
  | .int _ => exact ⟨' ', _, rfl, by decide⟩
  | .double _ => exact ⟨' ', _, rfl, by decide⟩
  | .str _ => exact ⟨' ', _, rfl, by decide⟩
  | .arr [] => exact ⟨' ', _, rfl, by decide⟩
  | .arr (item :: items) =>
    cases afterKey with
    | false => exact ⟨' ', _, rfl, by decide⟩
    | true => exact ⟨'\n', _, rfl, by decide⟩
  | .obj [] => exact ⟨' ', _, rfl, by decide⟩
  | .obj (field :: fields) =>
    cases afterKey with
    | false => exact ⟨' ', _, rfl, by decide⟩
    | true => exact ⟨'\n', _, rfl, by decide⟩

namespace Pass

/-- A sign that is no gap, break, comment or byte order mark. -/
lemma starts_cons {ch : Char} (t : List Char) (hgap : isGap ch = false)
    (hbreak : isBreak ch = false) (hcomment : ch ≠ '#') (hmark : ch ≠ '\ufeff') :
    Starts (ch :: t) := by
  intro x hx
  obtain rfl := Option.some.inj hx
  exact ⟨hgap, hbreak, hcomment, hmark⟩

lemma starts_plainText {cs : List Char} (h : PlainText cs) (t : List Char) :
    Starts (cs ++ t) := by
  obtain ⟨ch, more, rfl, hhead⟩ := h.head
  exact starts_cons _ hhead.solid.1 hhead.solid.2 (hhead.ne (by decide)) hhead.mark

/-- A printed text starts with a solid character. -/
lemma starts_textLines (indent : Nat) (s : String) (t : List Char) :
    Starts (textLines indent s ++ t) := by
  unfold textLines
  dsimp only
  cases hform : formOf s with
  | plain =>
    rw [List.append_assoc]
    exact starts_plainText (plainText_of_formOf hform) _
  | single => exact starts_cons _ (by decide) (by decide) (by decide) (by decide)
  | double => exact starts_cons _ (by decide) (by decide) (by decide) (by decide)
  | block => exact starts_cons _ (by decide) (by decide) (by decide) (by decide)

lemma textLines_ne_nil (indent : Nat) (s : String) : textLines indent s ≠ [] := by
  unfold textLines
  dsimp only
  cases formOf s with
  | plain => exact List.append_ne_nil_of_right_ne_nil _ (List.cons_ne_nil _ _)
  | single => exact List.append_ne_nil_of_right_ne_nil _ (List.cons_ne_nil _ _)
  | double => exact List.append_ne_nil_of_right_ne_nil _ (List.cons_ne_nil _ _)
  | block => exact List.cons_ne_nil _ _

lemma starts_shortKey (name : String) (t : List Char) : Starts (shortKey name ++ t) := by
  rcases shortKey_cases name with ⟨hform, hkey⟩ | ⟨-, hkey⟩ | ⟨-, hkey⟩
  · rw [hkey]
    exact starts_plainText (plainText_of_formOf hform) t
  · rw [hkey]
    exact starts_cons _ (by decide) (by decide) (by decide) (by decide)
  · rw [hkey]
    exact starts_cons _ (by decide) (by decide) (by decide) (by decide)

lemma starts_itemLines (indent : Nat) {items : List Json} (hitems : items ≠ [])
    (t : List Char) :
    Starts (itemLines indent true items ++ t) := by
  cases items with
  | nil => exact absurd rfl hitems
  | cons item items => exact starts_cons _ (by decide) (by decide) (by decide) (by decide)

lemma starts_fieldLines (indent : Nat) {fields : List (String × Json)}
    (hfields : fields ≠ []) (t : List Char) :
    Starts (fieldLines indent true fields ++ t) := by
  cases fields with
  | nil => exact absurd rfl hfields
  | cons field fields =>
    rw [fieldLines, if_pos rfl]
    by_cases hname : isShortKey field.1 = true
    · rw [if_pos hname]
      simp only [List.nil_append, List.append_assoc]
      exact starts_shortKey field.1 _
    · rw [if_neg hname]
      exact starts_cons _ (by decide) (by decide) (by decide) (by decide)

lemma fieldLines_append_ne_nil (indent : Nat) {fields : List (String × Json)}
    (hfields : fields ≠ []) (t : List Char) : fieldLines indent true fields ++ t ≠ [] := by
  cases fields with
  | nil => exact absurd rfl hfields
  | cons field fields =>
    rw [fieldLines, if_pos rfl]
    by_cases hname : isShortKey field.1 = true <;> simp [hname]

/-- Items that are not started yet are indented first. -/
lemma itemLines_later (indent : Nat) {items : List Json} (hitems : items ≠ []) :
    itemLines indent false items = blanks indent ++ itemLines indent true items := by
  cases items with
  | nil => exact absurd rfl hitems
  | cons item items => rfl

/-- So are fields. -/
lemma fieldLines_later (indent : Nat) {fields : List (String × Json)}
    (hfields : fields ≠ []) :
    fieldLines indent false fields = blanks indent ++ fieldLines indent true fields := by
  cases fields with
  | nil => exact absurd rfl hfields
  | cons field fields =>
    rw [fieldLines, fieldLines, if_pos rfl, if_neg (by decide), List.nil_append,
      List.append_assoc]

lemma itemLines_cons (indent : Nat) (v : Json) (more : List Json) (t : List Char) :
    itemLines indent true (v :: more) ++ t = '-' ::
      (valueLines indent false v ++ (itemLines indent false more ++ t)) := by
  rw [itemLines, if_pos rfl]
  simp only [List.nil_append, List.cons_append, List.append_assoc]

lemma fieldLines_cons_short (indent : Nat) {name : String}
    (hname : isShortKey name = true) (v : Json) (more : List (String × Json))
    (t : List Char) :
    fieldLines indent true ((name, v) :: more) ++ t
      = shortKey name ++ ':' ::
        (valueLines indent true v ++ (fieldLines indent false more ++ t)) := by
  rw [fieldLines, if_pos hname, if_pos rfl]
  simp only [List.nil_append, List.cons_append, List.append_assoc]

lemma fieldLines_cons_long (indent : Nat) {name : String}
    (hname : ¬ isShortKey name = true) (v : Json) (more : List (String × Json))
    (t : List Char) :
    fieldLines indent true ((name, v) :: more) ++ t
      = '?' :: ' ' :: (textLines (indent + 2) name ++ (blanks indent
        ++ ':' :: (valueLines indent false v ++ (fieldLines indent false more ++ t)))) := by
  rw [fieldLines, if_neg hname, if_pos rfl]
  simp only [List.nil_append, List.cons_append, List.append_assoc]

/-! ## Runs that lead on -/

section
variable {p q r : Pass} {rest rest' : List Char} {col k : Nat} {cols cols' : List Nat}
  {ts ts' : List Token}

/-- A token that is read brings a pass forward. -/
lemma Goes.of_leads (hread : readToken p = some q)
    (hless : q.cursor.rest.length < p.cursor.rest.length) (h : Leads q rest col cols ts) :
    Goes p rest col cols ts := by
  obtain ⟨r, hreads, hlands⟩ := h
  exact ⟨q, r, hread, hless, hreads, hlands⟩

/-- What is read first may be read in front of what leads on. -/
lemma Leads.of_reads (hreads : Reads p q) (h : Leads q rest col cols ts) :
    Leads p rest col cols ts := by
  obtain ⟨r, hreads', hlands⟩ := h
  exact ⟨r, hreads.trans hreads', hlands⟩

/-- Where a run lands, the next part is read. -/
lemma Leads.andThen (h : Leads p rest col cols ts) (hmore : rest ≠ [])
    (hcols : ∀ i, cols.head? = some i → i ≤ col)
    (hgoes : ∀ q, Ready q rest col cols ts true → Goes q rest' k cols' ts') :
    Leads p rest' k cols' ts' := by
  obtain ⟨r, hreads, hlands⟩ := h
  have hready := hlands.settle hcols
  refine Leads.of_reads hreads ((hgoes _ hready).leads ?_ ?_)
  · rw [hready.rest]
    exact hmore
  · rw [hready.rest]
    exact hlands.1

/-- A run that lands left of a collection closes it. -/
lemma Leads.close {i : Nat} (h : Leads p rest k (i :: cols) ts) (hk : k < i) :
    Leads p rest k cols (.blockEnd :: ts) := by
  obtain ⟨r, hreads, hlands⟩ := h
  exact ⟨r, hreads, hlands.close hk⟩

/-- Behind a blank, the part on the same line is read. -/
lemma Ready.leads_blank {allowed : Bool} (h : Ready p (' ' :: rest) col cols ts allowed)
    (hrest : Starts rest) (hmore : rest ≠ [])
    (hcols : ∀ i, cols.head? = some i → i ≤ col + 1)
    (hgoes : ∀ q, Ready q rest (col + 1) cols ts allowed → Goes q rest' k cols' ts') :
    Leads p rest' k cols' ts' := by
  have hready := h.settle_blank hrest hcols
  refine (hgoes _ hready).leads ?_ ?_
  · rw [hready.rest]
    exact hmore
  · rw [hready.rest, h.rest]
    exact Nat.le_succ _

/-- At the end of a line, the part on the next line is read. -/
lemma Ready.leads_feed {allowed : Bool} {j : Nat}
    (h : Ready p ('\n' :: (blanks j ++ rest)) col cols ts allowed) (hrest : Starts rest)
    (hmore : rest ≠ []) (hcols : ∀ i, cols.head? = some i → i ≤ j)
    (hgoes : ∀ q, Ready q rest j cols ts true → Goes q rest' k cols' ts') :
    Leads p rest' k cols' ts' := by
  have hlands : Lands p rest j cols ts := by
    refine lands_of_feed h.rest hrest h.indents h.tokens h.count h.outer fun key hkey => ?_
    obtain ⟨hrequired, hline⟩ := h.candidate key hkey
    exact ⟨hrequired, Nat.le_of_lt hline⟩
  exact Leads.andThen ⟨p, .refl p, hlands⟩ hmore hcols hgoes

end

/-- The columns once a collection is open at a column, when none is open right of it. -/
lemma openedCols_eq {col : Nat} {cols : List Nat} (h : ∀ i, cols.head? = some i → i ≤ col) :
    ∃ outer, openedCols col cols = col :: outer := by
  unfold openedCols
  cases cols with
  | nil => exact ⟨[], rfl⟩
  | cons i cols =>
    have hle := h i rfl
    by_cases hi : col ≤ i
    · obtain rfl : i = col := by omega
      exact ⟨cols, by simp⟩
    · exact ⟨i :: cols, by simp [hi]⟩

lemma openedCols_self (col : Nat) (cols : List Nat) :
    openedCols col (col :: cols) = col :: cols := by
  simp [openedCols]

lemma openedTokens_self (start : Token) (col : Nat) (cols : List Nat) (ts : List Token) :
    openedTokens start col (col :: cols) ts = ts := by
  simp [openedTokens]

/-- A block that is opened further right gets a column of its own. -/
lemma openedCols_inner {i col : Nat} (h : i < col) (cols : List Nat) :
    openedCols col (i :: cols) = col :: i :: cols := by
  simp [openedCols, Nat.not_le.mpr h]

lemma openedTokens_inner {i col : Nat} (h : i < col) (start : Token) (cols : List Nat)
    (ts : List Token) :
    openedTokens start col (i :: cols) ts = start :: ts := by
  simp [openedTokens, Nat.not_le.mpr h]

/-! ## Values -/

section
variable {p : Pass} {text inner rest : List Char} {indent col k : Nat} {cols : List Nat}
  {ts : List Token} {allowed : Bool}

lemma head_le {indent col : Nat} (h : indent ≤ col) :
    ∀ i, (indent :: cols).head? = some i → i ≤ col := by
  intro i hi
  obtain rfl := Option.some.inj hi
  exact h

/-- A text behind its key or sign. -/
lemma Ready.leads_text (s : String)
    (h : Ready p (' ' :: textLines (indent + 2) s ++ (blanks k ++ rest)) col
      (indent :: cols) ts allowed)
    (hcol : indent < col) (hk : k ≤ indent) (hrest : Starts rest) :
    Leads p rest k (indent :: cols) (.scalar s (styleOf s) :: ts) := by
  have hmore : textLines (indent + 2) s ++ (blanks k ++ rest) ≠ [] := by
    intro hnil
    exact textLines_ne_nil (indent + 2) s (List.append_eq_nil_iff.mp hnil).1
  exact h.leads_blank (starts_textLines (indent + 2) s _) hmore
    (head_le (by omega)) fun q hq =>
    hq.text (by omega) hk hrest

/-- A number, a truth value or null behind its key or sign. -/
lemma Ready.leads_atom (v : Json)
    (h : Ready p (' ' :: (atomChars v ++ ['\n']) ++ (blanks k ++ rest)) col
      (indent :: cols) ts allowed)
    (hcol : indent < col) (hk : k ≤ indent) (hrest : Starts rest) :
    Leads p rest k (indent :: cols)
      (.scalar (String.ofList (atomChars v)) .plain :: ts) := by
  have hready : Ready p (' ' :: (atomChars v ++ '\n' :: (blanks k ++ rest))) col
      (indent :: cols) ts allowed := by
    rw [List.cons_append, List.append_assoc] at h
    exact h
  exact hready.leads_blank (starts_plainText (plainText_atomChars v) _) (by simp)
    (head_le (by omega)) fun q hq =>
    hq.atom v (by omega) hk hrest

/-- An empty list or table behind its key or sign. -/
lemma Ready.leads_brackets (table : Bool)
    (h : Ready p (' ' :: (Yaml.brackets table ++ ['\n']) ++ (blanks k ++ rest)) col
      (indent :: cols) ts allowed)
    (hcol : indent < col) (hrest : Starts rest) :
    Leads p rest k (indent :: cols) ((bracketTokens table).reverse ++ ts) := by
  have hready : Ready p (' ' :: (Yaml.brackets table ++ '\n' :: (blanks k ++ rest))) col
      (indent :: cols) ts allowed := by
    rw [List.cons_append, List.append_assoc] at h
    exact h
  have hstarts : Starts (Yaml.brackets table ++ '\n' :: (blanks k ++ rest)) := by
    cases table with
    | false => exact starts_cons _ (by decide) (by decide) (by decide) (by decide)
    | true => exact starts_cons _ (by decide) (by decide) (by decide) (by decide)
  exact hready.leads_blank hstarts (by simp) (head_le (by omega)) fun q hq =>
    hq.brackets table (by omega) hrest

/-- A collection further in than the one around it is opened and closed. -/
lemma Leads.closeInner {start : Token} {tokens : List Token} {j : Nat}
    (h : Leads p rest k (openedCols j (indent :: cols))
      (tokens.reverse ++ openedTokens start j (indent :: cols) ts))
    (hj : indent < j) (hk : k ≤ indent) :
    Leads p rest k (indent :: cols) ((start :: (tokens ++ [.blockEnd])).reverse ++ ts) := by
  rw [openedCols_inner hj, openedTokens_inner hj] at h
  have hclosed := h.close (Nat.lt_of_le_of_lt hk hj)
  rw [List.reverse_cons, List.reverse_append, List.append_assoc]
  exact hclosed

end

/-! ## Lists and tables -/

mutual

/-- A value behind its key or sign is read as its tokens.  Behind a sign it stands one
column further, and a key may start. -/
theorem value_leads (v : Json) {p : Pass} {rest : List Char} {indent col k : Nat}
    {cols : List Nat} {ts : List Token} {afterKey allowed : Bool}
    (h : Ready p (valueLines indent afterKey v ++ (blanks k ++ rest)) col
      (indent :: cols) ts allowed)
    (hcol : indent < col) (hbehind : afterKey = false → col = indent + 1 ∧ allowed = true)
    (hk : k ≤ indent) (hrest : Starts rest) :
    Leads p rest k (indent :: cols) ((valueTokens afterKey v).reverse ++ ts) := by
  match v with
  | .null => exact Ready.leads_atom .null h hcol hk hrest
  | .bool b => exact Ready.leads_atom (.bool b) h hcol hk hrest
  | .int n => exact Ready.leads_atom (.int n) h hcol hk hrest
  | .double d => exact Ready.leads_atom (.double d) h hcol hk hrest
  | .str s => exact Ready.leads_text s h hcol hk hrest
  | .arr [] => exact Ready.leads_brackets false h hcol hrest
  | .obj [] => exact Ready.leads_brackets true h hcol hrest
  | .arr (item :: items) =>
    have hne := List.cons_ne_nil item items
    cases afterKey with
    | false =>
      obtain ⟨rfl, rfl⟩ := hbehind rfl
      have hstarts := starts_itemLines (indent + 2) hne (blanks k ++ rest)
      exact (h.leads_blank hstarts (List.cons_ne_nil _ _) (head_le (by omega)) fun q hq =>
        items_go (item :: items) hne hq (head_le (by omega))
          (by omega) hrest).closeInner (by omega) hk
    | true =>
      -- The list stands in the column of its key, whose table is still open there.
      have hstarts := starts_itemLines indent hne (blanks k ++ rest)
      have hlines : valueLines indent true (.arr (item :: items)) ++ (blanks k ++ rest)
          = '\n' ::
            (blanks indent ++
              (itemLines indent true (item :: items) ++ (blanks k ++ rest))) := by
        rw [← List.append_assoc (blanks indent), ← itemLines_later indent hne]
        rfl
      rw [hlines] at h
      refine h.leads_feed hstarts (List.cons_ne_nil _ _)
        (head_le (Nat.le_refl _)) fun q hq => ?_
      have hgoes := items_go (item :: items) hne hq (head_le (Nat.le_refl _)) hk hrest
      rw [openedCols_self, openedTokens_self] at hgoes
      exact hgoes
  | .obj (field :: fields) =>
    have hne := List.cons_ne_nil field fields
    have hstarts := starts_fieldLines (indent + 2) hne (blanks k ++ rest)
    have hmore := fieldLines_append_ne_nil (indent + 2) hne (blanks k ++ rest)
    cases afterKey with
    | false =>
      obtain ⟨rfl, rfl⟩ := hbehind rfl
      exact (h.leads_blank hstarts hmore (head_le (by omega)) fun q hq =>
        fields_go (field :: fields) hne hq (head_le (by omega))
          (by omega) hrest).closeInner (by omega) hk
    | true =>
      have hlines : valueLines indent true (.obj (field :: fields)) ++ (blanks k ++ rest)
          = '\n' ::
            (blanks (indent + 2) ++ (fieldLines (indent + 2) true (field :: fields) ++
              (blanks k ++ rest))) := by
        rw [← List.append_assoc (blanks (indent + 2)), ← fieldLines_later (indent + 2) hne]
        rfl
      rw [hlines] at h
      exact (h.leads_feed hstarts hmore (head_le (by omega)) fun q hq =>
        fields_go (field :: fields) hne hq (head_le (by omega))
          (by omega) hrest).closeInner (by omega) hk

/-- The entries of a list are read as their tokens, the first of which opens the list if
it is not open. -/
theorem items_go (items : List Json) (hitems : items ≠ []) {p : Pass} {rest : List Char}
    {indent k : Nat} {cols : List Nat} {ts : List Token}
    (h : Ready p (itemLines indent true items ++ (blanks k ++ rest)) indent cols ts true)
    (hcols : ∀ i, cols.head? = some i → i ≤ indent) (hk : k ≤ indent)
    (hrest : Starts rest) :
    Goes p rest k (openedCols indent cols)
      ((itemTokens items).reverse ++ openedTokens .blockListStart indent cols ts) := by
  match items with
  | [] => exact absurd rfl hitems
  | v :: more =>
    obtain ⟨outer, houter⟩ := openedCols_eq hcols
    obtain ⟨x, t, hx, hgap⟩ := valueLines_starts indent false v
    rw [itemLines_cons, hx, List.cons_append] at h
    obtain ⟨q, hread, -, hq⟩ := h.readToken_entry hgap
    have hless : q.cursor.rest.length < p.cursor.rest.length := by
      rw [hq.rest, h.rest]
      exact Nat.lt_succ_self _
    rw [← List.cons_append, ← hx, houter] at hq
    rw [houter]
    generalize openedTokens .blockListStart indent cols ts = before at hq ⊢
    have htokens : (itemTokens (v :: more)).reverse ++ before
        = (itemTokens more).reverse ++
          ((valueTokens false v).reverse ++ .blockEntry :: before) := by
      simp [itemTokens]
    rw [htokens]
    refine Goes.of_leads hread hless ?_
    by_cases hmore : more = []
    · subst hmore
      exact value_leads v hq (Nat.lt_succ_self _) (fun _ => ⟨rfl, rfl⟩) hk hrest
    · rw [itemLines_later indent hmore, List.append_assoc] at hq
      have hstarts := starts_itemLines indent hmore (blanks k ++ rest)
      have hvalue := value_leads v hq (Nat.lt_succ_self _) (fun _ => ⟨rfl, rfl⟩)
        (Nat.le_refl _) hstarts
      have hne : itemLines indent true more ++ (blanks k ++ rest) ≠ [] := by
        cases more with
        | nil => exact absurd rfl hmore
        | cons item more => exact List.cons_ne_nil _ _
      refine hvalue.andThen hne (head_le (Nat.le_refl _)) fun r hr => ?_
      have hgoes := items_go more hmore hr (head_le (Nat.le_refl _)) hk hrest
      rw [openedCols_self, openedTokens_self] at hgoes
      exact hgoes

/-- The entries of a table are read as their tokens, the first of which opens the table if
it is not open. -/
theorem fields_go (fields : List (String × Json)) (hfields : fields ≠ []) {p : Pass}
    {rest : List Char} {indent k : Nat} {cols : List Nat} {ts : List Token}
    (h : Ready p (fieldLines indent true fields ++ (blanks k ++ rest)) indent cols ts true)
    (hcols : ∀ i, cols.head? = some i → i ≤ indent) (hk : k ≤ indent)
    (hrest : Starts rest) :
    Goes p rest k (openedCols indent cols)
      ((fieldTokens fields).reverse ++ openedTokens .blockTableStart indent cols ts) := by
  match fields with
  | [] => exact absurd rfl hfields
  | (name, v) :: more =>
    obtain ⟨outer, houter⟩ := openedCols_eq hcols
    -- Whichever way the name is written, its value is followed by the further entries.
    have hvalue : ∀ {q : Pass} {col : Nat} {before : List Token} {allowed : Bool}
        (afterKey : Bool),
        Ready q
          (valueLines indent afterKey v ++
            (fieldLines indent false more ++ (blanks k ++ rest))) col
          (indent :: outer) before allowed → indent < col →
            (afterKey = false → col = indent + 1 ∧ allowed = true) →
        Leads q rest k (indent :: outer)
          ((fieldTokens more).reverse ++
            ((valueTokens afterKey v).reverse ++ before)) := by
      intro q col before allowed afterKey hq hcol hbehind
      by_cases hmore : more = []
      · subst hmore
        exact value_leads v hq hcol hbehind hk hrest
      · rw [fieldLines_later indent hmore, List.append_assoc] at hq
        have hstarts := starts_fieldLines indent hmore (blanks k ++ rest)
        have hfirst := value_leads v hq hcol hbehind (Nat.le_refl _) hstarts
        have hne := fieldLines_append_ne_nil indent hmore (blanks k ++ rest)
        refine hfirst.andThen hne (head_le (Nat.le_refl _)) fun r hr => ?_
        have hgoes := fields_go more hmore hr (head_le (Nat.le_refl _)) hk hrest
        rw [openedCols_self, openedTokens_self] at hgoes
        exact hgoes
    have htokens : ∀ before, (fieldTokens ((name, v) :: more)).reverse ++ before
        = (fieldTokens more).reverse ++ ((valueTokens (isShortKey name) v).reverse
          ++ .value :: .scalar name (styleOf name) :: .key :: before) := by
      intro before
      simp [fieldTokens]
    rw [htokens]
    by_cases hname : isShortKey name = true
    · obtain ⟨x, t, hx, hgap⟩ := valueLines_starts indent true v
      rw [fieldLines_cons_short indent hname, hx, List.cons_append] at h
      obtain ⟨q, r, hread, hless, hreads, -, -, after, hafter, hr⟩ :=
        h.shortKey hname hgap hcols
      rw [← List.cons_append, ← hx, houter] at hr
      rw [houter, hname]
      exact Goes.of_leads hread hless
        (.of_reads hreads (hvalue true hr hafter fun hfalse => by cases hfalse))
    · obtain ⟨x, t, hx, hgap⟩ := valueLines_starts indent false v
      rw [fieldLines_cons_long indent hname] at h
      obtain ⟨q, hread, -, hq⟩ := h.readToken_explicitKey
      have hless : q.cursor.rest.length < p.cursor.rest.length := by
        rw [hq.rest, h.rest]
        exact Nat.lt_succ_self _
      rw [houter] at hq ⊢
      rw [Bool.eq_false_iff.mpr hname]
      have hstarts : Starts
          (':' ::
            (valueLines indent false v ++
              (fieldLines indent false more ++ (blanks k ++ rest)))) :=
        starts_cons _ (by decide) (by decide) (by decide) (by decide)
      have hkey := Ready.leads_text name hq (Nat.lt_succ_self _) (Nat.le_refl _) hstarts
      refine Goes.of_leads hread hless
        (hkey.andThen (List.cons_ne_nil _ _) (head_le (Nat.le_refl _)) fun r hr => ?_)
      rw [hx, List.cons_append] at hr
      obtain ⟨r', hread', -, hr'⟩ := hr.readToken_explicitValue hgap
      have hless' : r'.cursor.rest.length < r.cursor.rest.length := by
        rw [hr'.rest, hr.rest]
        exact Nat.lt_succ_self _
      rw [← List.cons_append, ← hx] at hr'
      exact Goes.of_leads hread' hless' (hvalue false hr' (Nat.lt_succ_self _) fun _ =>
        ⟨rfl, rfl⟩)

end

/-! ## Documents -/

/-- At the end of a text, the outermost collection is closed. -/
lemma Lands.toEnd {p : Pass} {ts : List Token} (h : Lands p [] 0 [0] ts) :
    ∃ q, (∀ fuel, toEnd (fuel + 1) p = some q) ∧ q.tokens = .blockEnd :: ts := by
  have hready := h.settle (head_le (Nat.le_refl _))
  have hempty : p.settle.cursor.rest.isEmpty = true := by
    rw [hready.rest]
    rfl
  have hclosed : p.settle.closeBlocks none = { p.settle.push .blockEnd with indents :=
      [] } := by
    rw [closeBlocks, hready.inFlow, hready.indents]
    rfl
  have hrequired : (p.settle.keyCandidate.any fun k => k.required) = false := by
    cases hk : p.settle.keyCandidate with
    | none => rfl
    | some k => exact (hready.candidate k hk).1
  refine ⟨{ p.settle.push .blockEnd with indents := [], keyCandidate := none },
    fun fuel => ?_, congrArg (Token.blockEnd :: ·) hready.tokens⟩
  show (if p.settle.cursor.rest.isEmpty then (p.settle.closeBlocks none).dropKey
    else (readToken p.settle).bind (Pass.toEnd fuel)) = _
  rw [if_pos hempty, hclosed, Pass.dropKey]
  show (if (p.settle.keyCandidate.any fun k => k.required) then none else _) = _
  rw [hrequired]
  rfl

end Pass

/-- A text without a byte order mark is left as it is. -/
lemma start_of_printable {cs : List Char} (h : cs.all isPrintable = true) :
    Cursor.start cs = ⟨cs, 0, 0, 0⟩ := by
  unfold Cursor.start
  split
  · rw [List.all_cons, Bool.and_eq_true] at h
    exact absurd h.1 (by decide)
  · rfl

/-- The tokens of a printed table. -/
theorem sequence?_print {fields : List (String × Json)} (hfields : fields ≠ []) :
    Token.sequence? (print (.obj fields)) =
      some (.blockTableStart :: (fieldTokens fields ++ [.blockEnd])) := by
  have hprint : print (.obj fields) = String.ofList (fieldLines 0 true fields) := by
    have hempty : fields.isEmpty = false := List.isEmpty_eq_false_iff.mpr hfields
    unfold print
    dsimp only
    rw [hempty, Pass.fieldLines_later 0 hfields]
    rfl
  have hprintable := all_isPrintable_fieldLines 0 true fields
  have hallowed : (fieldLines 0 true fields).all isAllowed = true :=
    List.all_eq_true.mpr fun ch hch => isAllowed_of_isPrintable
      (List.all_eq_true.mp hprintable ch hch)
  generalize hlines : fieldLines 0 true fields = cs at hprint hprintable hallowed
  generalize hstart : ({ cursor := ⟨cs, 0, 0, 0⟩, tokens := [], count := 0
                         indents := [], outerKeys := []
                         keyCandidate := none, keyAllowed := true } : Pass) = p
  have hready : p.Ready (fieldLines 0 true fields ++ (blanks 0 ++ [])) 0 [] [] true := by
    rw [← hstart, hlines, ← List.append_nil (blanks 0)]
    exact ⟨(List.append_nil cs).symm, rfl, rfl, rfl, rfl, rfl, rfl, fun k hk => by cases hk⟩
  have hnone : ∀ i, ([] : List Nat).head? = some i → i ≤ 0 := fun i hi => by cases hi
  have hends : Pass.Starts [] := fun ch hch => by cases hch
  have hlands := hready.lands (Pass.starts_fieldLines 0 hfields _)
  obtain ⟨r, hreads, hlast⟩ : p.Leads [] 0 [0]
    ((fieldTokens fields).reverse ++ [.blockTableStart]) :=
    Pass.Leads.andThen ⟨p, .refl p, hlands⟩
      (Pass.fieldLines_append_ne_nil 0 hfields _) hnone fun q hq => by
      have hgoes := Pass.fields_go fields hfields hq hnone (Nat.le_refl _) hends
      exact hgoes
  obtain ⟨q, hq, htokens⟩ := hlast.toEnd
  have hend : Pass.toEnd (cs.length + 2) p = some q := by
    refine hreads.toEnd (fun fuel hfuel => ?_) (cs.length + 2) ?_
    · obtain ⟨f, rfl⟩ : ∃ f, fuel = f + 1 := ⟨fuel - 1, by omega⟩
      exact hq f
    · rw [← hstart]
      show cs.length < cs.length + 2
      omega
  rw [Token.sequence?, hprint, String.toList_ofList, start_of_printable hprintable]
  dsimp only
  rw [hallowed, hstart, hend]
  simp [htokens]

end Workplan.Yaml
