import ScriptFuzz.Bytes.Order
import ScriptFuzz.Channel.Error
import ScriptFuzz.Text.Utf8

/-!
# Sources, sinks and channels

A `Source` gives bytes and a `Sink` takes them; a `Channel` is both at once. What is read or written
beyond raw bytes, integers and lines, is defined here once for all of them.

- `readUInt width`: an unsigned integer of `width` bytes, in the order of the source.
- `readLine`: a line that ends in CR LF, without its end.
- `writeUInt width value`: the `width` low bytes of an integer, in the order of the sink.

A failing operation leaves the state in which it failed.
-/

namespace ScriptFuzz

/-- States that give bytes. -/
class Source (σ : Type) where
  /-- Gives exactly the wanted number of bytes, or fails. -/
  receive : (wanted : Nat) → EStateM ChannelError σ Bytes
  /-- The order in which integers are read. -/
  readOrder : σ → ByteOrder

/-- States that take bytes. -/
class Sink (σ : Type) where
  /-- Takes all of the bytes, or fails. -/
  send : Bytes → EStateM ChannelError σ Unit
  /-- The order in which integers are written. -/
  writeOrder : σ → ByteOrder

/-- States that give and take bytes. -/
class Channel (σ : Type) extends Source σ, Sink σ

namespace Source

variable {σ : Type} [Source σ]

/-- Reads an unsigned integer. -/
def readUInt (width : Nat) : EStateM ChannelError σ UInt64 := do
  let bytes ← receive width
  return (readOrder (← get)).decode bytes

/-- The greatest number of bytes in a line, its end included. -/
def maxLineLength : Nat := 8192

/-- Carriage return. -/
def cr : UInt8 := 0x0D

/-- Line feed. -/
def lf : UInt8 := 0x0A

/-- Reads the rest of a line of which `line` has been read, last byte first, and which may have
`room` more bytes. -/
def readLineFrom (line : Bytes) : (room : Nat) → EStateM ChannelError σ String
  | 0 => throw (.lineTooLong maxLineLength)
  | room + 1 => do
    let byte := (← readUInt 1).toUInt8
    if byte = cr then
      let byte := (← readUInt 1).toUInt8
      if byte = lf then return Text.ofUtf8 line.reverse
      else if byte = cr then throw (.malformedLine .duplicateReturn)
      else throw (.malformedLine .returnWithoutFeed)
    else if byte = lf then throw (.malformedLine .feedWithoutReturn)
    else readLineFrom (byte :: line) room

/-- Reads a line and gives it without its end. -/
def readLine : EStateM ChannelError σ String := readLineFrom [] (maxLineLength - 1)

end Source

/-- Writes an unsigned integer. -/
def Sink.writeUInt {σ : Type} [Sink σ] (width : Nat) (value : UInt64) :
    EStateM ChannelError σ Unit := do
  send ((writeOrder (← get)).encode width value)

end ScriptFuzz
