import Workplan.Toml.Reader

/-!
# The grammar of TOML

TOML 1.0 as relations: a construct relates the characters it starts at, what it means
and the characters behind it.  The rules follow the published grammar; where that leaves
a choice and its prose decides (a line break right behind the opening quotes, the white
space behind a backslash that ends a line), a rule says so.

The prose leaves two things to each implementation, and they are settled here as
follows: integers are those of a signed 64-bit word, and floats are doubles, where a
number above all doubles is refused and a number below all of them is infinite.
-/

namespace Workplan.Toml.Grammar

open Reader (isGap isPrintable isBareKey isHexadecimal isOctal isBinary daysIn float)

/-! ## Characters -/

/-- Any number of characters of a kind, in front of the rest. -/
def Run (p : Char → Bool) (cs body rest : List Char) : Prop :=
  cs = body ++ rest ∧ ∀ c ∈ body, p c = true

/-- Spaces and tabs. -/
def Gap (cs rest : List Char) : Prop :=
  ∃ body, Run isGap cs body rest

/-- A line break. -/
inductive Break : List Char → List Char → Prop
  | lf {rest} : Break ('\n' :: rest) rest
  | crlf {rest} : Break ('\r' :: '\n' :: rest) rest

/-- A comment, or nothing. -/
inductive Remark : List Char → List Char → Prop
  | none {rest} : Remark rest rest
  | comment {cs body rest} : Run isPrintable cs body rest → Remark ('#' :: cs) rest

/-- Spaces, tabs, comments and line breaks; every comment ends with its line. -/
inductive Blank : List Char → List Char → Prop
  | gap {cs rest} : Gap cs rest → Blank cs rest
  | line {cs cs₁ cs₂ cs₃ rest} : Gap cs cs₁ → Remark cs₁ cs₂ → Break cs₂ cs₃ →
      Blank cs₃ rest → Blank cs rest

/-! ## Texts -/

/-- The character of an escape, behind the backslash. -/
inductive Escape : List Char → Char → List Char → Prop
  | backspace {rest} : Escape ('b' :: rest) '\x08' rest
  | tab {rest} : Escape ('t' :: rest) '\t' rest
  | lineFeed {rest} : Escape ('n' :: rest) '\n' rest
  | formFeed {rest} : Escape ('f' :: rest) '\x0c' rest
  | carriageReturn {rest} : Escape ('r' :: rest) '\r' rest
  | quote {rest} : Escape ('"' :: rest) '"' rest
  | backslash {rest} : Escape ('\\' :: rest) '\\' rest
  | short {ds c rest} : ds.length = 4 → Text.natOfDigits? 16 ds = some c.toNat →
      Escape ('u' :: (ds ++ rest)) c rest
  | long {ds c rest} : ds.length = 8 → Text.natOfDigits? 16 ds = some c.toNat →
      Escape ('U' :: (ds ++ rest)) c rest

/-- The rest of a text on one line with escapes, behind its quote. -/
inductive Basic : List Char → List Char → List Char → Prop
  | close {rest} : Basic ('"' :: rest) [] rest
  | plain {c cs s rest} : c ≠ '"' → c ≠ '\\' → isPrintable c = true → Basic cs s rest →
      Basic (c :: cs) (c :: s) rest
  | escaped {c cs cs₁ s rest} : Escape cs c cs₁ → Basic cs₁ s rest →
      Basic ('\\' :: cs) (c :: s) rest

/-- The rest of a text on one line without escapes, behind its quote. -/
def Literal (cs s rest : List Char) : Prop :=
  Run (fun c => c != '\'' && isPrintable c) cs s ('\'' :: rest)

/-- Spaces, tabs and line breaks, as many as there are. -/
inductive Fold : List Char → List Char → Prop
  | stop {rest} : (∀ c ∈ rest.head?, isGap c = false) → (∀ rest', ¬ Break rest rest') →
      Fold rest rest
  | gap {c cs rest} : isGap c = true → Fold cs rest → Fold (c :: cs) rest
  | line {cs cs₁ rest} : Break cs cs₁ → Fold cs₁ rest → Fold cs rest

/-- A part of a text of several lines that is no quote, and the characters that
it stands for.  A backslash at the end of a line takes all white space away
that follows. -/
inductive Content (quote : Char) (escapes : Bool) :
    List Char → List Char → List Char → Prop
  | plain {c rest} : c ≠ quote → (c = '\\' → escapes = false) → isPrintable c = true →
      Content quote escapes (c :: rest) [c] rest
  | line {cs rest} : Break cs rest → Content quote escapes cs ['\n'] rest
  | escaped {c cs rest} : escapes = true → Escape cs c rest →
      Content quote escapes ('\\' :: cs) [c] rest
  | fold {cs cs₁ cs₂ rest} : escapes = true → Gap cs cs₁ → Break cs₁ cs₂ →
      Fold cs₂ rest →
      Content quote escapes ('\\' :: cs) [] rest

/-- The rest of a text of several lines, behind its quotes.  Up to two quotes may stand
in front of each part and in front of the closing ones. -/
inductive Multiline (quote : Char) (escapes : Bool) :
    List Char → List Char → List Char → Prop
  | close {n rest} : n ≤ 2 →
      Multiline quote escapes (List.replicate n quote ++ quote :: quote :: quote ::
        rest) (List.replicate n quote) rest
  | part {n cs cs₁ s s₁ rest} : n ≤ 2 → Content quote escapes cs s cs₁ →
      Multiline quote escapes cs₁ s₁ rest →
      Multiline quote escapes (List.replicate n quote ++ cs)
        (List.replicate n quote ++ (s ++ s₁)) rest

/-- A line break right behind the opening quotes is no part of the text. -/
inductive Opened : List Char → List Char → Prop
  | line {cs rest} : Break cs rest → Opened cs rest
  | here {rest} : (∀ rest', ¬ Break rest rest') → Opened rest rest

/-- A text in any of the four kinds of quotes. -/
inductive Text : List Char → String → List Char → Prop
  | basic {cs s rest} : Basic cs s rest → Text ('"' :: cs) (String.ofList s) rest
  | literal {cs s rest} : Literal cs s rest → Text ('\'' :: cs) (String.ofList s) rest
  | multiline {cs cs₁ s rest} : Opened cs cs₁ → Multiline '"' true cs₁ s rest →
      Text ('"' :: '"' :: '"' :: cs) (String.ofList s) rest
  | multilineLiteral {cs cs₁ s rest} : Opened cs cs₁ → Multiline '\'' false cs₁ s rest →
      Text ('\'' :: '\'' :: '\'' :: cs) (String.ofList s) rest

/-! ## Keys -/

/-- One key. -/
inductive Key : List Char → String → List Char → Prop
  | bare {cs body rest} : Run isBareKey cs body rest → body ≠ [] →
      Key cs (String.ofList body) rest
  | basic {cs s rest} : Basic cs s rest → Key ('"' :: cs) (String.ofList s) rest
  | literal {cs s rest} : Literal cs s rest → Key ('\'' :: cs) (String.ofList s) rest

/-- Keys with dots between them, the last one apart. -/
inductive Keys : List Char → List String → String → List Char → Prop
  | last {cs cs₁ cs₂ key rest} : Gap cs cs₁ → Key cs₁ key cs₂ → Gap cs₂ rest →
      Keys cs [] key rest
  | dot {cs cs₁ cs₂ cs₃ first path key rest} : Gap cs cs₁ → Key cs₁ first cs₂ →
      Gap cs₂ ('.' :: cs₃) →
      Keys cs₃ path key rest → Keys cs (first :: path) key rest

/-! ## Numbers -/

/-- Digits with single underscores between them. -/
inductive Digits (isDigit : Char → Bool) : List Char → List Char → List Char → Prop
  | last {c rest} : isDigit c = true → Digits isDigit (c :: rest) [c] rest
  | next {c cs ds rest} : isDigit c = true → Digits isDigit cs ds rest →
      Digits isDigit (c :: cs) (c :: ds) rest
  | spaced {c cs ds rest} : isDigit c = true → Digits isDigit cs ds rest →
      Digits isDigit (c :: '_' :: cs) (c :: ds) rest

/-- The sign of a number, and whether it is a minus. -/
inductive Sign : List Char → Bool → List Char → Prop
  | none {rest} : Sign rest false rest
  | plus {rest} : Sign ('+' :: rest) false rest
  | minus {rest} : Sign ('-' :: rest) true rest

/-- The whole part of a number, which has no zeros in front. -/
def Whole (cs ds rest : List Char) : Prop :=
  Digits Char.isDigit cs ds rest ∧ (1 < ds.length → ds.head? ≠ some '0')

/-- The digits behind the point, with the point. -/
inductive Fraction : List Char → List Char → List Char → Prop
  | point {cs ds rest} : Digits Char.isDigit cs ds rest → Fraction ('.' :: cs) ds rest

/-- A number with a sign. -/
def withSign (negative : Bool) (n : Nat) : Int :=
  if negative then -(n : Int) else n

/-- An order of magnitude, with its letter. -/
inductive Exponent : List Char → Int → List Char → Prop
  | letter {e cs cs₁ negative ds n rest} : e = 'e' ∨ e = 'E' → Sign cs negative cs₁ →
      Digits Char.isDigit cs₁ ds rest →
      Text.natOfDigits? 10 ds = some n → Exponent (e :: cs) (withSign negative n) rest

/-- The letters of the bases, with the base and its digits. -/
inductive Base : Char → Nat → (Char → Bool) → Prop
  | hexadecimal : Base 'x' 16 isHexadecimal
  | octal : Base 'o' 8 isOctal
  | binary : Base 'b' 2 isBinary

/-- A number. -/
inductive Number : List Char → Item → List Char → Prop
  | decimal {cs cs₁ negative ds n rest} {w : WordInt} : Sign cs negative cs₁ →
      Whole cs₁ ds rest →
      Text.natOfDigits? 10 ds = some n → w.val = withSign negative n →
      w.val < 0x8000000000000000 →
      Number cs (.int w) rest
  | based {letter base isDigit cs ds rest} {n : Nat} {w : WordInt} :
      Base letter base isDigit → Digits isDigit cs ds rest →
      Text.natOfDigits? base ds = some n → w.val = n → w.val < 0x8000000000000000 →
      Number ('0' :: letter :: cs) (.int w) rest
  | fraction {cs cs₁ cs₂ negative ds fs item rest} : Sign cs negative cs₁ →
      Whole cs₁ ds cs₂ → Fraction cs₂ fs rest →
      float negative (ds ++ fs) (-(fs.length : Int)) = some item → Number cs item rest
  | exponent {cs cs₁ cs₂ negative ds e item rest} : Sign cs negative cs₁ →
      Whole cs₁ ds cs₂ → Exponent cs₂ e rest →
      float negative ds e = some item → Number cs item rest
  | fractionExponent {cs cs₁ cs₂ cs₃ negative ds fs e item rest} :
      Sign cs negative cs₁ → Whole cs₁ ds cs₂ →
      Fraction cs₂ fs cs₃ → Exponent cs₃ e rest →
      float negative (ds ++ fs) (e - fs.length) = some item →
      Number cs item rest
  | infinite {cs negative rest} : Sign cs negative ('i' :: 'n' :: 'f' :: rest) →
      Number cs (.float (.infinite negative)) rest
  | nan {cs negative rest} : Sign cs negative ('n' :: 'a' :: 'n' :: rest) →
      Number cs (.float .nan) rest

/-! ## Dates and times -/

/-- A number of exactly `n` digits inside bounds. -/
inductive Field (n low high : Nat) : List Char → Nat → List Char → Prop
  | digits {ds v rest} : ds.length = n → (∀ c ∈ ds, c.isDigit = true) →
      Text.natOfDigits? 10 ds = some v → low ≤ v →
      v ≤ high → Field n low high (ds ++ rest) v rest

/-- A date that exists. -/
inductive Date : List Char → List Char → Prop
  | fields {cs year cs₁ month cs₂ day rest} : Field 4 0 9999 cs year ('-' :: cs₁) →
      Field 2 1 12 cs₁ month ('-' :: cs₂) →
      Field 2 1 (daysIn year month) cs₂ day rest → Date cs rest

/-- Hours, minutes and seconds, of which there may be 60. -/
inductive Clock : List Char → List Char → Prop
  | fields {cs hour cs₁ minute cs₂ second rest} : Field 2 0 23 cs hour (':' :: cs₁) →
      Field 2 0 59 cs₁ minute (':' :: cs₂) → Field 2 0 60 cs₂ second rest →
      Clock cs rest

/-- A time of day, with or without digits behind the seconds. -/
inductive Time : List Char → List Char → Prop
  | whole {cs rest} : Clock cs rest → Time cs rest
  | fraction {cs cs₁ ds rest} : Clock cs ('.' :: cs₁) → Run Char.isDigit cs₁ ds rest →
      ds ≠ [] → Time cs rest

/-- The offset of a time. -/
inductive Offset : List Char → List Char → Prop
  | utc {c rest} : c = 'Z' ∨ c = 'z' → Offset (c :: rest) rest
  | shifted {c cs hour cs₁ minute rest} : c = '+' ∨ c = '-' →
      Field 2 0 23 cs hour (':' :: cs₁) →
      Field 2 0 59 cs₁ minute rest → Offset (c :: cs) rest

/-- A date, a time, or both. -/
inductive Moment : List Char → List Char → Prop
  | date {cs rest} : Date cs rest → Moment cs rest
  | time {cs rest} : Time cs rest → Moment cs rest
  | both {cs c cs₁ rest} : Date cs (c :: cs₁) → c = 'T' ∨ c = 't' ∨ c = ' ' →
      Time cs₁ rest → Moment cs rest
  | offset {cs c cs₁ cs₂ rest} : Date cs (c :: cs₁) → c = 'T' ∨ c = 't' ∨ c = ' ' →
      Time cs₁ cs₂ → Offset cs₂ rest →
      Moment cs rest

/-! ## Values -/

mutual

/-- A value. -/
inductive Value : List Char → Item → List Char → Prop
  | isTrue {rest} : Value ('t' :: 'r' :: 'u' :: 'e' :: rest) (.bool true) rest
  | isFalse {rest} : Value ('f' :: 'a' :: 'l' :: 's' :: 'e' :: rest) (.bool false) rest
  | text {cs s rest} : Text cs s rest → Value cs (.text s) rest
  | number {cs item rest} : Number cs item rest → Value cs item rest
  | moment {written rest} : Moment (written ++ rest) rest → Value (written ++ rest)
      (.moment (String.ofList written)) rest
  | array {cs items rest} : Items cs items (']' :: rest) → Value ('[' :: cs)
      (.list items) rest
  | empty {cs rest} : Gap cs ('\x7d' :: rest) → Value ('\x7b' :: cs) (.inline []) rest
  | inline {cs es rest} : Fields [] cs es ('\x7d' :: rest) →
      Value ('\x7b' :: cs) (.inline es) rest

/-- The items of an array, the last one with or without a comma behind it. -/
inductive Items : List Char → List Item → List Char → Prop
  | none {cs rest} : Blank cs rest → Items cs [] rest
  | last {cs cs₁ cs₂ item rest} : Blank cs cs₁ → Value cs₁ item cs₂ → Blank cs₂ rest →
      Items cs [item] rest
  | next {cs cs₁ cs₂ cs₃ item items rest} : Blank cs cs₁ → Value cs₁ item cs₂ →
      Blank cs₂ (',' :: cs₃) →
      Items cs₃ items rest → Items cs (item :: items) rest

/-- The fields of a table in braces, added to the entries that there are. -/
inductive Fields : Entries → List Char → Entries → List Char → Prop
  | last {es es' cs path key cs₁ cs₂ item cs₃ rest} : Keys cs path key ('=' :: cs₁) →
      Gap cs₁ cs₂ → Value cs₂ item cs₃ →
      es.define path key item = some es' → Gap cs₃ rest → Fields es cs es' rest
  | next {es es' es'' cs path key cs₁ cs₂ item cs₃ cs₄ rest} :
      Keys cs path key ('=' :: cs₁) → Gap cs₁ cs₂ →
      Value cs₂ item cs₃ → es.define path key item = some es' → Gap cs₃ (',' :: cs₄) →
      Fields es' cs₄ es'' rest →
      Fields es cs es'' rest

end

/-! ## Documents -/

/-- What a line of a document says. -/
inductive Statement where
  /-- A header. -/
  | table (path : List String) (key : String)
  /-- A header in double brackets. -/
  | further (path : List String) (key : String)
  /-- A key and its value. -/
  | define (path : List String) (key : String) (item : Item)

namespace Statement

/-- The table that a statement leaves open, and the entries with what it says. -/
def apply (current : List String) (es : Entries) :
    Statement → Option (List String × Entries)
  | table path key => (es.openTable path key).map (path ++ [key], ·)
  | further path key => (es.openFurther path key).map (path ++ [key], ·)
  | define path key item => (es.defineUnder current path key item).map (current, ·)

/-- The entries with what several statements say. -/
def applyAll (current : List String) (es : Entries) : List Statement → Option Entries
  | [] => some es
  | s :: rest => (s.apply current es).bind fun (current, es) => applyAll current es rest

end Statement

/-- A statement. -/
inductive Stated : List Char → Statement → List Char → Prop
  | table {cs path key rest} : Keys cs path key (']' :: rest) → Stated ('[' :: cs)
      (.table path key) rest
  | further {cs path key rest} : Keys cs path key (']' :: ']' :: rest) →
      Stated ('[' :: '[' :: cs) (.further path key) rest
  | define {cs path key cs₁ cs₂ item rest} : Keys cs path key ('=' :: cs₁) →
      Gap cs₁ cs₂ → Value cs₂ item rest →
      Stated cs (.define path key item) rest

/-- A line without its break: a statement or none, and a comment or none. -/
inductive Line : List Char → List Statement → List Char → Prop
  | blank {cs cs₁ rest} : Gap cs cs₁ → Remark cs₁ rest → Line cs [] rest
  | statement {cs cs₁ cs₂ cs₃ s rest} : Gap cs cs₁ → Stated cs₁ s cs₂ → Gap cs₂ cs₃ →
      Remark cs₃ rest → Line cs [s] rest

/-- The lines of a document. -/
inductive Lines : List Char → List Statement → Prop
  | last {cs ss} : Line cs ss [] → Lines cs ss
  | next {cs cs₁ cs₂ ss ss'} : Line cs ss cs₁ → Break cs₁ cs₂ → Lines cs₂ ss' →
      Lines cs (ss ++ ss')

end Grammar

/-- A text is a document with the given entries: its lines, behind a byte order mark or
none, are statements that add up to them. -/
def IsDocument (text : String) (es : Entries) : Prop :=
  ∃ cs ss, (text.toList = cs ∨ text.toList = '\ufeff' :: cs) ∧ Grammar.Lines cs ss ∧
    Grammar.Statement.applyAll [] [] ss = some es

end Workplan.Toml
