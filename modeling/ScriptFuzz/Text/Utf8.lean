import ScriptFuzz.Bytes.Order

/-!
# UTF-8

- `utf8 s`: the bytes of a text.
- `ofUtf8 bytes`: the text of arbitrary bytes. Each maximal run of bytes that begins a character and
  cannot be completed, and each byte that cannot begin one, reads as U+FFFD.

The reader is an automaton: between characters it holds nothing, inside one it holds the bits read
so far, the number of bytes to come and the range of the next one. The narrower ranges after the
lead bytes E0, ED, F0 and F4 rule out overlong forms, surrogates and code points above 10FFFF.
-/

namespace ScriptFuzz.Text

/-- The UTF-8 form of a text. -/
def utf8 (s : String) : Bytes := s.toList.flatMap String.utf8EncodeChar

/-- A character that has been begun. -/
structure Partial where
  /-- The bits of the code point read so far. -/
  bits : Nat
  /-- How many bytes are still missing. -/
  missing : Nat
  /-- The least byte that may come next. -/
  low : UInt8
  /-- The greatest byte that may come next. -/
  high : UInt8
deriving DecidableEq, Repr

/-- Stands in place of bytes that spell no character. -/
def replacement : Char := '\uFFFD'

/-- What a byte between two characters means: a character of its own, the begin of a longer one, or
neither. -/
def lead (b : UInt8) : Option (Char ⊕ Partial) :=
  let n := b.toNat
  if n < 0x80 then some (.inl (Char.ofNat n))
  else if n < 0xC2 then none
  else if n < 0xE0 then some (.inr ⟨n - 0xC0, 1, 0x80, 0xBF⟩)
  else if n = 0xE0 then some (.inr ⟨0, 2, 0xA0, 0xBF⟩)
  else if n = 0xED then some (.inr ⟨0xD, 2, 0x80, 0x9F⟩)
  else if n < 0xF0 then some (.inr ⟨n - 0xE0, 2, 0x80, 0xBF⟩)
  else if n = 0xF0 then some (.inr ⟨0, 3, 0x90, 0xBF⟩)
  else if n < 0xF4 then some (.inr ⟨n - 0xF0, 3, 0x80, 0xBF⟩)
  else if n = 0xF4 then some (.inr ⟨4, 3, 0x80, 0x8F⟩)
  else none

/-- The reader between bytes: the characters read, last one first, and the one that is begun. -/
structure Reader where
  /-- The characters read so far, last one first. -/
  read : List Char := []
  /-- The character that has been begun, if any. -/
  begun : Option Partial := none

namespace Reader

/-- Reads a byte that does not continue a character. -/
def start (r : Reader) (b : UInt8) : Reader :=
  match lead b with
  | some (.inl c) => { read := c :: r.read }
  | some (.inr p) => { read := r.read, begun := some p }
  | none => { read := replacement :: r.read }

/-- Reads one byte. A byte that cannot continue the character begun ends it and starts afresh. -/
def step (r : Reader) (b : UInt8) : Reader :=
  match r.begun with
  | none => r.start b
  | some p =>
    if p.low ≤ b && b ≤ p.high then
      let bits := p.bits * 64 + b.toNat % 64
      if p.missing ≤ 1 then { read := Char.ofNat bits :: r.read }
      else { r with begun := some ⟨bits, p.missing - 1, 0x80, 0xBF⟩ }
    else start { read := replacement :: r.read } b

/-- The text read, where a character begun and never completed reads as U+FFFD. -/
def text (r : Reader) : String :=
  String.ofList (if r.begun.isSome then replacement :: r.read else r.read).reverse

end Reader

/-- The text that arbitrary bytes spell. -/
def ofUtf8 (bytes : Bytes) : String := (bytes.foldl Reader.step {}).text

end ScriptFuzz.Text
