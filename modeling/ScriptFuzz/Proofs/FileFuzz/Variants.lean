import ScriptFuzz.Proofs.Mutators.Lifecycle

/-!
# The variants of a file

A walk through a file has two states for each byte. Reset and moved on, it comes to them one after
the other, and with the last move it is over.

- `FileWalk.variants`: what the target gets to see of a file, each with its signature.
- `FileWalk.state`: the state after a number of moves from the first one.
- `FileWalk.next_state`, `FileWalk.finished_state`, `FileWalk.getElem?_variants`: how a walk moves,
  when it is over, and what its states show.
-/

namespace ScriptFuzz.FileWalk

/-- The contents of a file with each byte inverted and then with each byte left out, and what these
variants are called. -/
def variants (name : String) (data : Bytes) : List (Bytes × String) :=
  (List.range data.length).map (fun i =>
    (data.modify i (~~~ ·), s!"file: {Text.quoted name}, bitinverse, offset={i}")) ++
  (List.range data.length).map fun i =>
    (data.eraseIdx i, s!"file: {Text.quoted name}, byteremoval, offset={i}")

theorem length_variants (name : String) (data : Bytes) :
    (variants name data).length = 2 * data.length := by
  rw [variants, List.length_append, List.length_map, List.length_map, List.length_range,
    Nat.two_mul]

/-- Where a walk is that has been reset and has then moved a number of times. -/
def state (w : FileWalk) (moves : Nat) : FileWalk :=
  if moves < w.data.length then { w with phase := .inverting, offset := moves }
  else if moves < 2 * w.data.length then
    { w with phase := .removing, offset := moves - w.data.length }
  else { w with phase := .done, offset := w.data.length }

variable {w : FileWalk} {k : Nat}

theorem state_inverting (hk : k < w.data.length) :
    w.state k = { w with phase := .inverting, offset := k } := if_pos hk

theorem state_removing (hk : k < w.data.length) :
    w.state (w.data.length + k) = { w with phase := .removing, offset := k } := by
  rw [state, if_neg (by omega), if_pos (by omega), Nat.add_sub_cancel_left]

theorem state_done (w : FileWalk) :
    w.state (2 * w.data.length) = { w with phase := .done, offset := w.data.length } := by
  rw [state, if_neg (by omega), if_neg (Nat.lt_irrefl _)]

theorem state_zero (h : w.data ≠ []) : w.state 0 = w.reset :=
  state_inverting (List.length_pos_iff.2 h)

@[simp] theorem name_state (w : FileWalk) (k : Nat) : (w.state k).name = w.name := by
  rw [state]
  split
  · rfl
  split <;> rfl

/-- A move leads to the next state, from the last state of a pass to the first of the next one. -/
theorem next_state (hk : k < 2 * w.data.length) : (w.state k).next = w.state (k + 1) := by
  by_cases hpass : k < w.data.length
  · rw [state_inverting hpass, next_eq]
    by_cases hlast : k + 1 = w.data.length
    · have hpos : 0 < w.data.length := by omega
      rw [hlast, ← Nat.add_zero w.data.length, state_removing hpos]
      simp
    · rw [state_inverting (by omega)]
      simp [hlast]
  · obtain ⟨i, rfl⟩ := Nat.exists_eq_add_of_le (Nat.le_of_not_lt hpass)
    have hi : i < w.data.length := by omega
    rw [state_removing hi, next_eq]
    by_cases hlast : i + 1 = w.data.length
    · rw [Nat.add_assoc, hlast, ← Nat.two_mul, state_done]
      simp
    · rw [Nat.add_assoc, state_removing (by omega)]
      simp [hlast]

/-- A walk is over as soon as it has moved twice for each byte. -/
theorem finished_state (w : FileWalk) (k : Nat) :
    (w.state k).finished = decide (2 * w.data.length ≤ k) := by
  rw [state]
  split
  · exact (decide_eq_false (by omega)).symm
  split
  · exact (decide_eq_false (by omega)).symm
  · exact (decide_eq_true (by omega)).symm

/-- The states of a walk show the variants. -/
theorem getElem?_variants (hk : k < 2 * w.data.length) :
    (variants w.name w.data)[k]? = some ((w.state k).bytes, (w.state k).describe) := by
  rw [variants]
  by_cases hpass : k < w.data.length
  · rw [List.getElem?_append_left (by simpa using hpass), List.getElem?_map,
      List.getElem?_range hpass, state_inverting hpass, bytes_inverting rfl hpass]
    rfl
  · obtain ⟨i, rfl⟩ := Nat.exists_eq_add_of_le (Nat.le_of_not_lt hpass)
    have hi : i < w.data.length := by omega
    rw [List.getElem?_append_right (by simp), List.length_map, List.length_range,
      Nat.add_sub_cancel_left, List.getElem?_map, List.getElem?_range hi, state_removing hi,
      bytes_removing rfl hi]
    rfl

end ScriptFuzz.FileWalk
