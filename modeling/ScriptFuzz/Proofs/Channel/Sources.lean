import ScriptFuzz.Channel.Memory
import ScriptFuzz.Proofs.Bytes.Order

/-!
# Sources with bytes left to be read

What readers of messages rely on in a source: as long as there are enough bytes, it gives them in
their order.

- `LawfulSource`: a source with a string of bytes that have not been read. The sources in memory are
  lawful.
- `BoundedSource`: a lawful source that fails when there are not enough bytes. So are the sources in
  memory.
- `EndingSource`: a bounded source whose failures are told by the numbers of bytes alone. So are the
  sources in memory.
- `receive_of_le`, `receive_of_lt`: what the sources in memory do with a request.
- `Source.readUInt_encode`: an integer that is written and read keeps its low bytes.
- `Source.readUInt_one`: a single byte is read as it is.
-/

namespace ScriptFuzz

/-! ## One action after another -/

section Actions

variable {ε σ α β : Type} {x : EStateM ε σ α} {f : α → EStateM ε σ β} {s s' : σ}

theorem bind_of_ok {a : α} (h : x s = .ok a s') : (x >>= f) s = f a s' := by
  show EStateM.bind x f s = _
  rw [EStateM.bind, h]

theorem bind_of_error {e : ε} (h : x s = .error e s') : (x >>= f) s = .error e s' := by
  show EStateM.bind x f s = _
  rw [EStateM.bind, h]

end Actions

/-! ## Sources -/

/-- Sources that give the bytes they have from the front, without a change of the byte order. -/
class LawfulSource (σ : Type) [Source σ] where
  /-- The bytes that have not been read. -/
  unread : σ → Bytes
  /-- Bytes in front of others are given, and the others are left. -/
  receive_append : ∀ {s : σ} {front rest : Bytes}, unread s = front ++ rest →
    ∃ s', Source.receive front.length s = .ok front s' ∧ unread s' = rest ∧
      Source.readOrder s' = Source.readOrder s

theorem ArraySource.receive_of_le {s : ArraySource} {wanted : Nat}
    (h : wanted ≤ s.unread.length) :
    Source.receive wanted s =
      .ok (s.unread.take wanted) { s with offset := s.offset + wanted } :=
  if_neg (Nat.not_lt.2 (s.length_unread ▸ h))

theorem ArraySource.receive_of_lt {s : ArraySource} {wanted : Nat}
    (h : s.unread.length < wanted) :
    Source.receive wanted s = .error (.unexpectedEnd wanted s.unread.length) s := by
  rw [s.length_unread] at h ⊢
  exact if_pos h

/-- To read on is to leave bytes behind. -/
theorem ArraySource.unread_advance (s : ArraySource) (read : Nat) :
    ({ s with offset := s.offset + read } : ArraySource).unread = s.unread.drop read :=
  List.drop_drop.symm

theorem MemoryChannel.receive_of_le {c : MemoryChannel} {wanted : Nat}
    (h : wanted ≤ c.incoming.length) :
    Source.receive wanted c =
      .ok (c.incoming.take wanted) { c with incoming := c.incoming.drop wanted } :=
  if_pos (reaches_iff.2 h)

theorem MemoryChannel.receive_of_lt {c : MemoryChannel} {wanted : Nat}
    (h : c.incoming.length < wanted) :
    Source.receive wanted c = .error .closed { c with incoming := [] } :=
  if_neg (mt reaches_iff.1 (Nat.not_le.2 h))

instance : LawfulSource ArraySource where
  unread s := s.unread
  receive_append {s front rest} h := by
    refine ⟨{ s with offset := s.offset + front.length }, ?_, ?_, rfl⟩
    · have hle : front.length ≤ s.unread.length := by
        rw [h, List.length_append]
        exact Nat.le_add_right _ _
      rw [ArraySource.receive_of_le hle, h, List.take_left]
    · rw [s.unread_advance, h, List.drop_left]

instance : LawfulSource MemoryChannel where
  unread c := c.incoming
  receive_append {c front rest} h := by
    refine ⟨{ c with incoming := rest }, ?_, rfl, rfl⟩
    have hle : front.length ≤ c.incoming.length := by
      rw [h, List.length_append]
      exact Nat.le_add_right _ _
    rw [MemoryChannel.receive_of_le hle, h, List.take_left, List.drop_left]

/-- Sources that give no more bytes than they have. -/
class BoundedSource (σ : Type) [Source σ] extends LawfulSource σ where
  /-- If there are not enough bytes, a read fails. -/
  receive_short : ∀ {s : σ} {wanted : Nat}, (unread s).length < wanted →
    ∃ e s', Source.receive wanted s = .error e s'

instance : BoundedSource ArraySource where
  receive_short h := ⟨_, _, ArraySource.receive_of_lt h⟩

instance : BoundedSource MemoryChannel where
  receive_short h := ⟨_, _, MemoryChannel.receive_of_lt h⟩

/-- Sources whose failures are told by the numbers of wanted and available bytes. -/
class EndingSource (σ : Type) [Source σ] extends BoundedSource σ where
  /-- The error of a source that has fewer bytes than are wanted. -/
  shortage : (wanted available : Nat) → ChannelError
  /-- A read that fails, fails with this error. -/
  eq_shortage : ∀ {s s' : σ} {wanted : Nat} {e : ChannelError},
    Source.receive wanted s = .error e s' → e = shortage wanted (unread s).length

instance : EndingSource ArraySource where
  shortage := .unexpectedEnd
  eq_shortage {s s' wanted e} h := by
    by_cases hle : wanted ≤ s.unread.length
    · rw [ArraySource.receive_of_le hle] at h
      cases h
    · rw [ArraySource.receive_of_lt (Nat.lt_of_not_le hle)] at h
      cases h
      rfl

instance : EndingSource MemoryChannel where
  shortage _ _ := .closed
  eq_shortage {c c' wanted e} h := by
    by_cases hle : wanted ≤ c.incoming.length
    · rw [MemoryChannel.receive_of_le hle] at h
      cases h
    · rw [MemoryChannel.receive_of_lt (Nat.lt_of_not_le hle)] at h
      cases h
      rfl

open LawfulSource

/-- An integer cannot be read if its bytes cannot. -/
theorem Source.readUInt_of_error {σ : Type} [Source σ] {s s' : σ} {width : Nat} {e : ChannelError}
    (h : Source.receive width s = .error e s') : Source.readUInt width s = .error e s' :=
  bind_of_error h

variable {σ : Type} [Source σ] [LawfulSource σ]

/-- An integer that is written and read keeps its low bytes. -/
theorem Source.readUInt_encode {s : σ} {width : Nat} {v : UInt64} {rest : Bytes}
    (h : unread s = (Source.readOrder s).encode width v ++ rest) :
    ∃ s', Source.readUInt width s = .ok (UInt64.ofNat (v.toNat % 2 ^ (8 * width))) s' ∧
      unread s' = rest ∧ Source.readOrder s' = Source.readOrder s := by
  obtain ⟨s', hreceive, hrest, horder⟩ := receive_append h
  rw [ByteOrder.length_encode] at hreceive
  refine ⟨s', ?_, hrest, horder⟩
  rw [Source.readUInt, bind_of_ok hreceive, ← ByteOrder.decode_encode, ← horder]
  rfl

/-- A single byte is read as it is, in either order. -/
theorem Source.readUInt_one {s : σ} {b : UInt8} {rest : Bytes} (h : unread s = b :: rest) :
    ∃ s', Source.readUInt 1 s = .ok b.toUInt64 s' ∧ unread s' = rest := by
  have hfront : unread s = [b] ++ rest := h
  obtain ⟨s', hreceive, hrest, -⟩ := receive_append hfront
  refine ⟨s', ?_, hrest⟩
  have hdecode : (Source.readOrder s').decode [b] = b.toUInt64 := by
    have hvalue : (Source.readOrder s').decode [b] = UInt64.ofNat (b.toNat + 256 * 0) := by
      cases Source.readOrder s' <;> rfl
    rw [hvalue, Nat.mul_zero, Nat.add_zero]
    exact UInt64.ofNat_uInt8ToNat b
  have hread : Source.readUInt 1 s = .ok ((Source.readOrder s').decode [b]) s' :=
    bind_of_ok hreceive
  rw [hread, hdecode]

end ScriptFuzz
