/-!
# UTF-8

Reading bytes as text in two ways: strictly, where one ill-formed byte sequence refuses
the whole input, and leniently, where every maximal ill-formed run is read as the
replacement character.
-/

namespace Workplan.Text.Utf8

/-- A continuation byte, inside the given bounds. -/
def contIn (lo hi : UInt8) (b : UInt8) : Option Nat :=
  if lo ≤ b && b ≤ hi then some (b.toNat - 0x80) else none

def cont (b : UInt8) : Option Nat :=
  contIn 0x80 0xBF b

/-- Length of the sequence that a lead byte announces, its payload bits, and the bounds
that the second byte has to keep: they exclude overlong forms, surrogates and values
past U+10FFFF. -/
def lead (b : UInt8) : Option (Nat × Nat × UInt8 × UInt8) :=
  if 0xC2 ≤ b && b ≤ 0xDF then some (1, b.toNat - 0xC0, 0x80, 0xBF)
  else if b == 0xE0 then some (2, 0, 0xA0, 0xBF)
  else if b == 0xED then some (2, 0xD, 0x80, 0x9F)
  else if 0xE1 ≤ b && b ≤ 0xEF then some (2, b.toNat - 0xE0, 0x80, 0xBF)
  else if b == 0xF0 then some (3, 0, 0x90, 0xBF)
  else if b == 0xF4 then some (3, 4, 0x80, 0x8F)
  else if 0xF1 ≤ b && b ≤ 0xF3 then some (3, b.toNat - 0xF0, 0x80, 0xBF)
  else none

/-- Takes up to `n` more continuation bytes: the value and the number taken, and whether
all `n` were there. -/
def follow : Nat → Nat → List UInt8 → Nat × Nat × Bool
  | 0, acc, _ => (acc, 0, true)
  | _ + 1, acc, [] => (acc, 0, false)
  | n + 1, acc, b :: rest =>
    match cont b with
    | none => (acc, 0, false)
    | some v =>
      let (value, taken, full) := follow n (acc * 64 + v) rest
      (value, taken + 1, full)

/-- Reads the sequence that starts with `b`: the character, if it is well formed, and how
many bytes after `b` belong to it. -/
def sequenceAt (b : UInt8) (rest : List UInt8) : Option Char × Nat :=
  if b < 0x80 then (some (Char.ofNat b.toNat), 0)
  else
    match lead b, rest with
    | none, _ => (none, 0)
    | some _, [] => (none, 0)
    | some (n, bits, lo, hi), second :: more =>
      match contIn lo hi second with
      | none => (none, 0)
      | some v =>
        let (value, taken, full) := follow (n - 1) (bits * 64 + v) more
        (if full then some (Char.ofNat value) else none, taken + 1)

/-- Reads bytes as characters; `none` stands for a maximal ill-formed run.  The counter
skips bytes that an earlier sequence has used. -/
def pieces : Nat → List UInt8 → List (Option Char)
  | _, [] => []
  | skip + 1, _ :: rest => pieces skip rest
  | 0, b :: rest =>
    let (c, used) := sequenceAt b rest
    c :: pieces used rest

/-- The text of well-formed bytes. -/
def decode? (bytes : List UInt8) : Option String :=
  ((pieces 0 bytes).mapM id).map String.ofList

/-- The text of any bytes, with U+FFFD for each ill-formed run. -/
def decodeLossy (bytes : List UInt8) : String :=
  String.ofList ((pieces 0 bytes).map (·.getD '\ufffd'))

/-- The bytes of a text. -/
def encode (s : String) : List UInt8 :=
  s.toUTF8.toList

end Workplan.Text.Utf8
