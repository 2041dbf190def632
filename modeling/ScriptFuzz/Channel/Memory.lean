import ScriptFuzz.Channel.Basic

/-!
# Channels in memory

- `ArraySource`: bytes that are given one after the other. A read past the end fails and takes
  nothing.
- `MemoryChannel`: bytes to be given, as a peer would send them, and a record of all bytes taken. A
  read past the end counts as the peer hanging up, and what was left is lost.
-/

namespace ScriptFuzz

/-- Whether there are at least `n` bytes. No more than those are looked at. -/
def reaches (bytes : Bytes) (n : Nat) : Bool := n == 0 || !(bytes.drop (n - 1)).isEmpty

theorem reaches_iff {bytes : Bytes} {n : Nat} : reaches bytes n = true ↔ n ≤ bytes.length := by
  cases n with
  | zero => simp [reaches]
  | succ n =>
    show _ ↔ n < bytes.length
    simp [reaches]

/-- Bytes that are read from the front. -/
structure ArraySource where
  /-- All the bytes. -/
  data : Bytes
  /-- The number of bytes that have been read. -/
  offset : Nat := 0
  /-- The order of the integers among them. -/
  order : ByteOrder := .bigEndian
deriving DecidableEq, Repr

namespace ArraySource

/-- The number of bytes that have not been read. -/
def remaining (s : ArraySource) : Nat := s.data.length - s.offset

/-- The bytes that have not been read. -/
def unread (s : ArraySource) : Bytes := s.data.drop s.offset

theorem length_unread (s : ArraySource) : s.unread.length = s.remaining := List.length_drop

end ArraySource

instance : Source ArraySource where
  receive wanted := fun s =>
    if s.remaining < wanted then .error (.unexpectedEnd wanted s.remaining) s
    else .ok (s.unread.take wanted) { s with offset := s.offset + wanted }
  readOrder s := s.order

/-- A channel to a peer whose answers are known. -/
structure MemoryChannel where
  /-- The bytes the peer has still to give. -/
  incoming : Bytes
  /-- The order of integers in both directions. -/
  order : ByteOrder := .bigEndian
  /-- All bytes that were written. -/
  sent : Array UInt8 := #[]
deriving DecidableEq, Repr

instance : Channel MemoryChannel where
  receive wanted := fun c =>
    if reaches c.incoming wanted then
      .ok (c.incoming.take wanted) { c with incoming := c.incoming.drop wanted }
    else .error .closed { c with incoming := [] }
  readOrder c := c.order
  send bytes := modify fun c => { c with sent := c.sent ++ bytes }
  writeOrder c := c.order

end ScriptFuzz
