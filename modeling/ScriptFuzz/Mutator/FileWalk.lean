import ScriptFuzz.Text.Quoted
import ScriptFuzz.Bytes.Order

/-!
# Walks through a file

Two passes over the bytes of a file: the first inverts one byte at a time, the second leaves one
out.
-/

namespace ScriptFuzz

/-- What a walk does to the byte it stands at. -/
inductive FilePhase where
  /-- The byte is inverted. -/
  | inverting
  /-- The byte is left out. -/
  | removing
  /-- Both passes are over. -/
  | done
deriving DecidableEq, Repr

/-- A walk through a file. -/
structure FileWalk where
  /-- The name of the file. -/
  name : String
  /-- The contents of the file. -/
  data : Bytes
  /-- The present pass. -/
  phase : FilePhase := .inverting
  /-- The number of the byte the walk stands at. -/
  offset : Nat := 0
deriving DecidableEq, Repr

namespace FileWalk

/-- A walk at the first byte of a file; there is none if the file is empty. -/
def start? (name : String) (data : Bytes) : Option FileWalk :=
  if data.isEmpty then none else some { name, data }

/-- Whether both passes are over. -/
def finished (w : FileWalk) : Bool := w.phase = .done

/-- Moves on to the next byte, or to the first byte of the next pass, and says whether there is one.
-/
def mutate (w : FileWalk) : Bool × FileWalk :=
  let offset := w.offset + 1
  let last := offset = w.data.length
  match w.phase with
  | .inverting =>
    (true, if last then { w with phase := .removing, offset := 0 } else { w with offset })
  | .removing =>
    if last then (false, { w with phase := .done, offset }) else (true, { w with offset })
  | .done => (false, w)

/-- The walk at the next byte. -/
def next (w : FileWalk) : FileWalk := w.mutate.2

theorem next_eq (w : FileWalk) :
    w.next = match w.phase with
      | .inverting =>
        if w.offset + 1 = w.data.length then { w with phase := .removing, offset := 0 }
        else { w with offset := w.offset + 1 }
      | .removing =>
        if w.offset + 1 = w.data.length then { w with phase := .done, offset := w.offset + 1 }
        else { w with offset := w.offset + 1 }
      | .done => w := by
  rw [next, mutate]
  cases w.phase with
  | inverting => rfl
  | removing =>
    dsimp only
    split <;> rfl
  | done => rfl

/-- The answer to a move is whether the walk is not over behind it. -/
theorem mutate_fst (w : FileWalk) : w.mutate.1 = !w.next.finished := by
  obtain ⟨name, data, phase, offset⟩ := w
  rw [next, mutate]
  cases phase with
  | inverting =>
    dsimp only
    split <;> rfl
  | removing =>
    dsimp only
    split <;> rfl
  | done => rfl

/-- Back to the first byte of the first pass. -/
def reset (w : FileWalk) : FileWalk := { w with phase := .inverting, offset := 0 }

/-- The walk is over, or it stands at a byte of the file. -/
def InFile (w : FileWalk) : Prop := w.phase = .done ∨ w.offset < w.data.length

/-- How often the walk can still move. -/
def remaining (w : FileWalk) : Nat :=
  match w.phase with
  | .inverting => 2 * w.data.length - w.offset
  | .removing => w.data.length - w.offset
  | .done => 0

theorem data_of_start? {name : String} {data : Bytes} {w : FileWalk}
    (h : start? name data = some w) : w.data ≠ [] := by
  rw [start?] at h
  split at h
  · cases h
  · next hdata =>
    cases h
    exact fun hnil => hdata (List.isEmpty_iff.2 hnil)

theorem inFile_reset {w : FileWalk} (h : w.data ≠ []) : w.reset.InFile :=
  .inr (List.length_pos_iff.2 h)

theorem InFile.next {w : FileWalk} (h : w.InFile) : w.next.InFile := by
  obtain ⟨name, data, phase, offset⟩ := w
  rw [next_eq]
  cases phase with
  | inverting =>
    obtain hdone | hlt := h
    · cases hdone
    dsimp only at hlt ⊢
    split
    · exact .inr (Nat.zero_lt_of_lt hlt)
    · next hlast => exact .inr (Nat.lt_of_le_of_ne hlt hlast)
  | removing =>
    obtain hdone | hlt := h
    · cases hdone
    dsimp only at hlt ⊢
    split
    · exact .inl rfl
    · next hlast => exact .inr (Nat.lt_of_le_of_ne hlt hlast)
  | done => exact .inl rfl

/-- A walk cannot move on forever. -/
theorem remaining_next_lt {w : FileWalk} (h : w.InFile) (hmove : w.mutate.1) :
    w.next.remaining < w.remaining := by
  obtain ⟨name, data, phase, offset⟩ := w
  obtain rfl | hlt := h
  · cases hmove
  rw [next_eq]
  cases phase with
  | inverting =>
    dsimp only at hlt ⊢
    split
    · show data.length - 0 < 2 * data.length - offset
      omega
    · show 2 * data.length - (offset + 1) < 2 * data.length - offset
      omega
  | removing =>
    dsimp only at hlt ⊢
    split
    · show 0 < data.length - offset
      omega
    · show data.length - (offset + 1) < data.length - offset
      omega
  | done => cases hmove

/-- The contents as the present state changes them; nothing when both passes are over. -/
def bytes (w : FileWalk) : Bytes :=
  match w.phase, w.data.drop w.offset with
  | .inverting, b :: behind => w.data.take w.offset ++ ~~~b :: behind
  | .removing, _ :: behind => w.data.take w.offset ++ behind
  | _, _ => []

/-- The signature of the present state. -/
def describe (w : FileWalk) : String :=
  let name := Text.quoted w.name
  match w.phase with
  | .inverting => s!"file: {name}, bitinverse, offset={w.offset}"
  | .removing => s!"file: {name}, byteremoval, offset={w.offset}"
  | .done => s!"file: {name}, done"

end FileWalk

end ScriptFuzz
