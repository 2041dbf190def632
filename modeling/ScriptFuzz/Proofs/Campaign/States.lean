import ScriptFuzz.Mutator.Basic

/-!
# The states of mutators

A mutator in its first state moves on from state to state until it is finished.

- `Mutator.after`: the state behind a number of moves.
- `Mutator.states`: the number of states, if there is an end to them.
- `Mutator.finished_after_iff`: a mutator is finished as soon as it has moved as often as it has
  states.
- `Mutator.reset_after`: from every state a mutator goes back to the first one.
-/

namespace ScriptFuzz

namespace Mutator

/-- The state behind a number of moves. -/
def after (m : Mutator) : (moves : Nat) → Mutator
  | 0 => m
  | k + 1 => (m.after k).next

/-- The number of states; counters do not end. -/
def states : Mutator → Option Nat
  | counter _ => none
  | strings d => some d.size
  -- two passes over the bytes
  | file w => some (2 * w.data.length)
  | lengths w => some (w.upper - w.lower + 1)

/-- A mutator in its first state, of which it has at least one. -/
def IsFirst : Mutator → Prop
  | counter c => c.current = c.initial
  | strings d => d.index = 0 ∧ 0 < d.size
  | file w => w.phase = .inverting ∧ w.offset = 0 ∧ 0 < w.data.length
  | lengths w => w.count = w.lower ∧ w.done = false ∧ w.lower ≤ w.upper

variable {m : Mutator}

/-! ## Back to the first state -/

theorem reset_next (m : Mutator) : m.next.reset = m.reset := by
  cases m with
  | counter c => rfl
  | strings d =>
    rw [next_strings, Dictionary.next_eq]
    split <;> rfl
  | file w =>
    rw [next_file, FileWalk.next_eq]
    cases w.phase with
    | inverting =>
      dsimp only
      split <;> rfl
    | removing =>
      dsimp only
      split <;> rfl
    | done => rfl
  | lengths w =>
    rw [next_lengths, LengthWalk.next_eq]
    split <;> rfl

theorem IsFirst.reset (h : m.IsFirst) : m.reset = m := by
  cases m with
  | counter c =>
    obtain ⟨width, initial, lower, upper, current⟩ := c
    obtain rfl : current = initial := h
    rfl
  | strings d =>
    obtain ⟨form, entries, index⟩ := d
    obtain ⟨rfl, -⟩ : index = 0 ∧ _ := h
    rfl
  | file w =>
    obtain ⟨name, data, phase, offset⟩ := w
    obtain ⟨rfl, rfl, -⟩ : phase = .inverting ∧ offset = 0 ∧ _ := h
    rfl
  | lengths w =>
    obtain ⟨width, lower, upper, count, done⟩ := w
    obtain ⟨rfl, rfl, -⟩ : count = lower ∧ done = false ∧ _ := h
    rfl

/-- From every state a mutator goes back to the first one. -/
theorem reset_after (h : m.IsFirst) (k : Nat) : (m.after k).reset = m := by
  induction k with
  | zero => exact h.reset
  | succ k ih => rw [after, reset_next, ih]

/-! ## The last state -/

theorem IsFirst.states_pos (h : m.IsFirst) {n : Nat} (hn : m.states = some n) : 0 < n := by
  cases m with
  | counter c => cases hn
  | strings d =>
    cases hn
    exact h.2
  | file w =>
    cases hn
    exact Nat.mul_pos Nat.two_pos h.2.2
  | lengths w =>
    cases hn
    exact Nat.succ_pos _

/-- A mutator that is finished stays so. -/
theorem finished_next (h : m.finished) : m.next.finished := by
  cases m with
  | counter c => exact h
  | strings d =>
    have hfinished : d.finished = true := h
    rw [next_strings, Dictionary.next_eq, if_pos hfinished]
    exact h
  | file w =>
    have hphase : w.phase = .done := of_decide_eq_true h
    rw [next_file, FileWalk.next_eq, hphase]
    exact h
  | lengths w =>
    have hdone : w.done = true := h
    rw [next_lengths, LengthWalk.next_eq, hdone]
    rfl

theorem finished_after_of_le {k l : Nat} (hkl : k ≤ l) (h : (m.after k).finished) :
    (m.after l).finished := by
  induction hkl with
  | refl => exact h
  | step _ ih => exact finished_next ih

/-- The state before which a mutator is not finished, and in which it is. -/
theorem finished_iff_of_last {n : Nat} (hbefore : ∀ k < n, (m.after k).finished = false)
    (hlast : (m.after n).finished) (k : Nat) : (m.after k).finished ↔ n ≤ k := by
  constructor
  · intro hk
    refine Decidable.byContradiction ?_
    intro hlt
    rw [hbefore k (Nat.lt_of_not_le hlt)] at hk
    exact Bool.false_ne_true hk
  · intro hle
    exact finished_after_of_le hle hlast

theorem finished_counter (c : Counter) (k : Nat) : ((counter c).after k).finished = false := by
  have hcounter : ∃ c', (counter c).after k = counter c' := by
    induction k with
    | zero => exact ⟨c, rfl⟩
    | succ k ih =>
      obtain ⟨c', hc'⟩ := ih
      exact ⟨c'.next, by rw [after, hc', next_counter]⟩
  obtain ⟨c', hc'⟩ := hcounter
  rw [hc']
  rfl

theorem after_strings {d : Dictionary} (h : d.index = 0) {k : Nat} (hk : k ≤ d.size) :
    (strings d).after k = strings { d with index := k } := by
  induction k with
  | zero => rw [after, ← h]
  | succ k ih =>
    have hnot : Dictionary.finished { d with index := k } = false :=
      decide_eq_false (Nat.not_le.2 hk)
    rw [after, ih (by omega), next_strings, Dictionary.next_eq, hnot]
    rfl

theorem after_lengths {w : LengthWalk} (h : w.count = w.lower) (hdone : w.done = false) {k : Nat}
    (hk : w.lower + k ≤ w.upper) :
    (lengths w).after k = lengths { w with count := w.lower + k } := by
  induction k with
  | zero =>
    rw [after, Nat.add_zero, Mutator.lengths.injEq]
    exact congrArg (fun n => { w with count := n }) h
  | succ k ih =>
    have hnot : ¬w.upper ≤ w.lower + k := by omega
    rw [after, ih (by omega), next_lengths, LengthWalk.next_eq, if_neg (by simp [hdone, hnot])]
    rfl

theorem after_inverting {w : FileWalk} (h : w.phase = .inverting) (hoffset : w.offset = 0)
    {k : Nat} (hk : k < w.data.length) : (file w).after k = file { w with offset := k } := by
  induction k with
  | zero => rw [after, ← hoffset]
  | succ k ih =>
    have hnot : ¬k + 1 = w.data.length := by omega
    rw [after, ih (by omega), next_file, FileWalk.next_eq]
    simp only [h, hnot, if_false]

theorem after_removing {w : FileWalk} (h : w.phase = .inverting) (hoffset : w.offset = 0)
    {k : Nat} (hk : k < w.data.length) :
    (file w).after (w.data.length + k) = file { w with phase := .removing, offset := k } := by
  induction k with
  | zero =>
    obtain ⟨n, hn⟩ := Nat.exists_eq_add_of_lt hk
    rw [Nat.zero_add] at hn
    rw [Nat.add_zero, hn, after, after_inverting h hoffset (by omega), next_file, FileWalk.next_eq]
    simp only [h, hn, if_true]
  | succ k ih =>
    have hnot : ¬k + 1 = w.data.length := by omega
    rw [← Nat.add_assoc, after, ih (by omega), next_file, FileWalk.next_eq]
    simp only [hnot, if_false]

/-- A mutator is finished as soon as it has moved as often as it has states. -/
theorem finished_after_iff (h : m.IsFirst) (k : Nat) :
    (m.after k).finished ↔ ∃ n, m.states = some n ∧ n ≤ k := by
  cases m with
  | counter c =>
    rw [finished_counter]
    constructor
    · intro h
      cases h
    · rintro ⟨n, hn, -⟩
      cases hn
  | strings d =>
    rw [finished_iff_of_last (n := d.size)]
    · simp [states]
    · intro k hk
      rw [after_strings h.1 (by omega)]
      exact decide_eq_false (by simpa [Dictionary.size] using hk)
    · rw [after_strings h.1 (Nat.le_refl _)]
      exact decide_eq_true (Nat.le_refl _)
  | file w =>
    obtain ⟨hphase, hoffset, hpos⟩ := h
    rw [finished_iff_of_last (n := 2 * w.data.length)]
    · simp [states]
    · intro k hk
      rcases Nat.lt_or_ge k w.data.length with hlt | hge
      · rw [after_inverting hphase hoffset hlt, finished, FileWalk.finished, hphase]
        rfl
      · obtain ⟨i, rfl⟩ := Nat.exists_eq_add_of_le hge
        rw [after_removing hphase hoffset (by omega)]
        rfl
    · obtain ⟨n, hn⟩ := Nat.exists_eq_add_of_lt hpos
      have hlast : 2 * w.data.length = w.data.length + n + 1 := by omega
      rw [hlast, after, after_removing hphase hoffset (by omega), next_file, FileWalk.next_eq]
      simp only [show n + 1 = w.data.length by omega, if_true]
      rfl
  | lengths w =>
    obtain ⟨hcount, hdone, hle⟩ := h
    rw [finished_iff_of_last (n := w.upper - w.lower + 1)]
    · simp [states]
    · intro k hk
      rw [after_lengths hcount hdone (by omega)]
      exact hdone
    · rw [after, after_lengths hcount hdone (by omega), next_lengths, LengthWalk.next_eq, if_pos]
      · rfl
      · simp
        omega

end Mutator

end ScriptFuzz
