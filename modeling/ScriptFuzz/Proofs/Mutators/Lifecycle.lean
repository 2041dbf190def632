import ScriptFuzz.Proofs.Campaign.States

/-!
# The lifecycle of mutators

Between two resets a mutator is a cursor into a list of variants: it starts at the first one, moves
on by one each time, and is finished when there is none left. The four kinds keep their place in
different ways (a number that wraps around, an index, a pass and an offset, a count and a flag), but
nobody who moves and resets them can tell.

- `Mutator.Command`, `Mutator.perform`: moves and resets, one after the other.
- `Mutator.sinceReset`: how often a mutator was moved since its last reset.
- `Variants`, `Mutator.Made`: the variants that a mutator is made for, whatever it keeps of them.
- `Mutator.perform_eq_after`: of all commands only the moves since the last reset count.
- `Mutator.perform_follows_variants`: at each time a mutator is at the variant with the number of
  those moves, and it says so.
-/

namespace ScriptFuzz

/-! ## Commands -/

namespace Mutator

/-- What can be done to a mutator between the times that it is written. -/
inductive Command where
  /-- On to the next variant. -/
  | mutate
  /-- Back to the first one. -/
  | reset
deriving DecidableEq, Repr

/-- How often a mutator was moved since its last reset. -/
def sinceReset (commands : List Command) : Nat :=
  commands.foldl (fun k command => match command with
    | .mutate => k + 1
    | .reset => 0) 0

/-- The state behind a command. -/
def obey (m : Mutator) : Command → Mutator
  | .mutate => m.mutate.2
  | .reset => m.reset

/-- The state behind commands, one after the other. -/
def perform (m : Mutator) (commands : List Command) : Mutator := commands.foldl obey m

variable {m : Mutator}

/-- Of all commands only the moves since the last reset count. -/
theorem perform_eq_after (h : m.IsFirst) (commands : List Command) :
    m.perform commands = m.after (sinceReset commands) := by
  -- the commands may begin in the middle of a walk
  have hfrom : ∀ k, (m.after k).perform commands =
      m.after (commands.foldl (fun k command => match command with
        | .mutate => k + 1
        | .reset => 0) k) := by
    induction commands with
    | nil => exact fun _ => rfl
    | cons command commands ih =>
      intro k
      cases command with
      | mutate => exact ih (k + 1)
      | reset =>
        show ((m.after k).reset).perform commands = _
        rw [reset_after h]
        exact ih 0
  exact hfrom 0

end Mutator

/-! ## Variants -/

/-- The variants of a value in their order, as they are written. -/
inductive Variants where
  /-- Variants without an end. They may heed the byte order. -/
  | endless (entry : Nat → ByteOrder → Bytes)
  /-- Finitely many variants. -/
  | listed (entries : List Bytes)

namespace Variants

/-- The number of variants, if there is an end to them. -/
def size : Variants → Option Nat
  | endless _ => none
  | listed entries => some entries.length

/-- Whether there is a variant with the given number. -/
def has (k : Nat) : Variants → Bool
  | endless _ => true
  | listed entries => k < entries.length

/-- The variant with the given number. -/
def get? (k : Nat) (order : ByteOrder) : Variants → Option Bytes
  | endless entry => some (entry k order)
  | listed entries => entries[k]?

theorem isSome_get? (v : Variants) (k : Nat) (order : ByteOrder) :
    (v.get? k order).isSome = v.has k := by
  cases v with
  | endless entry => rfl
  | listed entries =>
    rw [get?, has, Bool.eq_iff_iff]
    simp

theorem has_eq_false_iff {v : Variants} {k : Nat} :
    v.has k = false ↔ ∃ n, v.size = some n ∧ n ≤ k := by
  cases v with
  | endless entry => simp [has, size]
  | listed entries => simp [has, size]

/-- The values of a width from a first one on. Behind the greatest one comes zero. -/
def counting (width : Width) (initial : Nat) : Variants :=
  .endless fun k order => order.encode width.bytes (.ofNat ((initial + k) % 2 ^ width.bits))

/-- A seed, if there is one, and the strings known to break programs, each with the ending of its
form. -/
def spelling (form : StringForm) (seed : Option String) : Variants :=
  .listed (((seed.map Text.utf8).toList ++ badStrings).map (· ++ form.ending))

/-- Each byte inverted, and then each byte left out. -/
def damaging (data : Bytes) : Variants :=
  .listed ((List.range data.length).map (data.modify · (~~~ ·)) ++
    (List.range data.length).map data.eraseIdx)

/-- Arrays of the numbers of elements from one bound to another. -/
def stretching (width lower upper : Nat) : Variants :=
  .listed ((List.range (upper - lower + 1)).map fun k =>
    List.replicate ((lower + k) * width) LengthWalk.fill)

end Variants

/-- How mutators are made, and the variants that they are made for. -/
inductive Mutator.Made : Mutator → Variants → Prop
  | counter (width : Width) (initial : Nat) :
      Made (.ofWidth width initial) (.counting width initial)
  | bounded (width : Width) (initial lower upper : Nat) :
      Made (.counter ((Counter.start width initial).withBounds lower upper))
        (.counting width initial)
  | strings (form : StringForm) (seed : Option String) :
      Made (.ofStrings form seed) (.spelling form seed)
  | file {name : String} {data : Bytes} {m : Mutator} (h : Mutator.ofFile name data = .ok m) :
      Made m (.damaging data)
  /-- An upper bound below the lower one counts as equal to it. -/
  | lengths {width lower upper : Nat} (h : max upper lower * width < 2 ^ (64 : Nat)) :
      Made (.ofLengths width lower upper) (.stretching width lower (max upper lower))

/-! ## The variants of a file -/

namespace FileWalk

variable {w : FileWalk}

theorem bytes_inverting (hphase : w.phase = .inverting) (h : w.offset < w.data.length) :
    w.bytes = w.data.modify w.offset (~~~ ·) := by
  have hdrop : w.data.drop w.offset = w.data[w.offset] :: w.data.drop (w.offset + 1) :=
    List.drop_eq_getElem_cons h
  rw [bytes, hphase, hdrop, List.modify_eq_take_cons_drop h]

theorem bytes_removing (hphase : w.phase = .removing) (h : w.offset < w.data.length) :
    w.bytes = w.data.eraseIdx w.offset := by
  have hdrop : w.data.drop w.offset = w.data[w.offset] :: w.data.drop (w.offset + 1) :=
    List.drop_eq_getElem_cons h
  rw [bytes, hphase, hdrop, List.eraseIdx_eq_take_drop_succ]

theorem start?_eq_some {name : String} {data : Bytes} (h : start? name data = some w) :
    w = { name, data } ∧ 0 < data.length := by
  rw [start?] at h
  split at h
  · cases h
  next hne =>
  cases h
  refine ⟨rfl, ?_⟩
  rw [List.isEmpty_iff] at hne
  exact List.length_pos_iff.2 hne

end FileWalk

/-! ## What a mutator shows after a number of moves -/

namespace Mutator

variable {m : Mutator} {v : Variants}

/-- A counter adds up its moves. -/
theorem after_counter {c : Counter} (h : c.current < 2 ^ c.width.bits) (k : Nat) :
    (counter c).after k =
      .counter { c with current := (c.current + k) % 2 ^ c.width.bits } := by
  induction k with
  | zero => rw [after, Nat.add_zero, Nat.mod_eq_of_lt h]
  | succ k ih =>
    rw [after, ih, next_counter, Counter.next, Counter.mutate]
    dsimp only
    rw [Nat.mod_add_mod, Nat.add_assoc]

/-- Bounds are not heeded: a counter shows its first value and the moves added up. -/
theorem bytes_counting {c : Counter} {initial : Nat}
    (hcurrent : c.current = initial % 2 ^ c.width.bits) (k : Nat) (order : ByteOrder) :
    ((counter c).after k).bytes order =
      order.encode c.width.bytes (.ofNat ((initial + k) % 2 ^ c.width.bits)) := by
  have hlt : c.current < 2 ^ c.width.bits := by
    rw [hcurrent]
    exact Nat.mod_lt _ (Nat.two_pow_pos _)
  rw [after_counter hlt, hcurrent, Nat.mod_add_mod]
  rfl

theorem bytes_spelling {d : Dictionary} (hindex : d.index = 0) {k : Nat} {entry : Bytes}
    (hk : d.entries[k]? = some entry) (order : ByteOrder) :
    ((strings d).after k).bytes order = entry ++ d.form.ending := by
  have hlt : k < d.size := (List.getElem?_eq_some_iff.1 hk).1
  rw [after_strings hindex (Nat.le_of_lt hlt)]
  show (Dictionary.current { d with index := k }) ++ _ = _
  rw [Dictionary.current, hk]
  rfl

theorem bytes_damaging {w : FileWalk} (hphase : w.phase = .inverting) (hoffset : w.offset = 0)
    {k : Nat} {bytes : Bytes} (order : ByteOrder)
    (hk : (Variants.damaging w.data).get? k order = some bytes) :
    ((file w).after k).bytes order = bytes := by
  rw [Variants.damaging, Variants.get?] at hk
  by_cases hlt : k < w.data.length
  · -- the first pass
    rw [List.getElem?_append_left (by simpa using hlt), List.getElem?_map,
      List.getElem?_range hlt] at hk
    cases hk
    rw [after_inverting hphase hoffset hlt]
    exact FileWalk.bytes_inverting hphase hlt
  · obtain ⟨i, rfl⟩ := Nat.exists_eq_add_of_le (Nat.le_of_not_lt hlt)
    have hi : i < w.data.length := by
      have hlen := (List.getElem?_eq_some_iff.1 hk).1
      simp only [List.length_append, List.length_map, List.length_range] at hlen
      omega
    rw [List.getElem?_append_right (by simp), List.getElem?_map, List.length_map,
      List.length_range, Nat.add_sub_cancel_left, List.getElem?_range hi] at hk
    cases hk
    rw [after_removing hphase hoffset hi]
    exact FileWalk.bytes_removing rfl hi

theorem bytes_stretching {w : LengthWalk} (hcount : w.count = w.lower) (hdone : w.done = false)
    (hsize : w.upper * w.width < 2 ^ (64 : Nat)) {k : Nat} (hk : w.lower + k ≤ w.upper)
    (order : ByteOrder) :
    ((lengths w).after k).bytes order =
      List.replicate ((w.lower + k) * w.width) LengthWalk.fill := by
  have hlt : (w.lower + k) * w.width < 2 ^ (64 : Nat) :=
    Nat.lt_of_le_of_lt (Nat.mul_le_mul_right _ hk) hsize
  rw [after_lengths hcount hdone hk]
  show List.replicate ((w.lower + k) * w.width % 2 ^ (64 : Nat)) _ = _
  rw [Nat.mod_eq_of_lt hlt]

/-! ## Where a mutator is -/

/-- What is made of a file is at its first byte. -/
theorem walk_of_ofFile {name : String} {data : Bytes} (h : ofFile name data = .ok m) :
    m = .file { name, data } ∧ 0 < data.length := by
  rw [ofFile] at h
  split at h
  · next w hw =>
    cases h
    obtain ⟨rfl, hpos⟩ := FileWalk.start?_eq_some hw
    exact ⟨rfl, hpos⟩
  · cases h

namespace Made

theorem isFirst (h : Made m v) : m.IsFirst := by
  cases h with
  | counter width initial => rfl
  | bounded width initial lower upper => rfl
  | strings form seed =>
    have hpos : 0 < ((seed.map Text.utf8).toList ++ badStrings).length := by
      rw [List.length_append]
      exact Nat.add_pos_right _ (by decide)
    exact ⟨rfl, hpos⟩
  | file h =>
    obtain ⟨rfl, hpos⟩ := walk_of_ofFile h
    exact ⟨rfl, rfl, hpos⟩
  | lengths h => exact ⟨rfl, rfl, Nat.le_max_right _ _⟩

/-- A mutator has as many states as there are variants. -/
theorem states_eq (h : Made m v) : m.states = v.size := by
  cases h with
  | counter width initial => rfl
  | bounded width initial lower upper => rfl
  | strings form seed =>
    show some _ = some _
    rw [List.length_map]
    rfl
  | @file name data m h =>
    obtain ⟨rfl, -⟩ := walk_of_ofFile h
    show some (2 * data.length) = some _
    rw [List.length_append, List.length_map, List.length_map, List.length_range, Nat.two_mul]
  | lengths h =>
    show some _ = some _
    rw [List.length_map, List.length_range]
    rfl

/-- A mutator that has moved a number of times shows the variant of that number. -/
theorem bytes_after (h : Made m v) {k : Nat} {order : ByteOrder} {bytes : Bytes}
    (hk : v.get? k order = some bytes) : (m.after k).bytes order = bytes := by
  cases h with
  | counter width initial =>
    cases hk
    exact bytes_counting rfl k order
  | bounded width initial lower upper =>
    cases hk
    exact bytes_counting rfl k order
  | strings form seed =>
    rw [Variants.spelling, Variants.get?, List.getElem?_map, Option.map_eq_some_iff] at hk
    obtain ⟨entry, hentry, rfl⟩ := hk
    exact bytes_spelling rfl hentry order
  | file h =>
    obtain ⟨rfl, -⟩ := walk_of_ofFile h
    exact bytes_damaging rfl rfl order hk
  | @lengths width lower upper h =>
    rw [Variants.stretching, Variants.get?, List.getElem?_map, Option.map_eq_some_iff] at hk
    obtain ⟨i, hi, rfl⟩ := hk
    obtain ⟨hlt, rfl⟩ := List.getElem?_eq_some_iff.1 hi
    rw [List.length_range] at hlt
    rw [List.getElem_range]
    have hle : lower ≤ max upper lower := Nat.le_max_right _ _
    exact bytes_stretching rfl rfl h (show lower + k ≤ max upper lower by omega) order

/-- A mutator is finished when there is no variant left. -/
theorem finished_after (h : Made m v) (k : Nat) : (m.after k).finished = !v.has k := by
  have hiff := finished_after_iff h.isFirst k
  rw [h.states_eq, ← Variants.has_eq_false_iff] at hiff
  cases hhas : v.has k with
  | false => exact hiff.2 hhas
  | true =>
    refine Bool.eq_false_iff.2 ?_
    intro hfinished
    rw [hiff.1 hfinished] at hhas
    cases hhas

end Made

/-- Whatever was done to a mutator since it was made, all that counts is how often it was moved
since its last reset. It shows the variant of that number as long as there is one, and is finished
behind the last. A move answers whether there is a variant to move to, and if there is none, it
leaves the mutator finished. -/
theorem perform_follows_variants {m : Mutator} {v : Variants} (h : Made m v)
    (commands : List Command) :
    let now := m.perform commands
    let k := sinceReset commands
    (∀ others, sinceReset others = k → m.perform others = now) ∧
    (v.has k → ∀ order, v.get? k order = some (now.bytes order)) ∧
    now.finished = !v.has k ∧
    now.mutate.1 = v.has (k + 1) ∧
    now.mutate.2.finished = !v.has (k + 1) := by
  intro now k
  have hnow : now = m.after k := perform_eq_after h.isFirst commands
  have hnext : now.mutate.2.finished = !v.has (k + 1) := by
    rw [hnow]
    exact h.finished_after (k + 1)
  refine ⟨?_, ?_, ?_, ?_, hnext⟩
  · intro others hothers
    rw [hnow, perform_eq_after h.isFirst others, hothers]
  · intro hk order
    rw [← v.isSome_get? k order] at hk
    obtain ⟨bytes, hbytes⟩ := Option.isSome_iff_exists.1 hk
    rw [hnow, h.bytes_after hbytes, hbytes]
  · rw [hnow]
    exact h.finished_after k
  · rw [mutate_fst]
    exact (congrArg (!·) hnext).trans (Bool.not_not _)

/-- A walk through a file of one byte that was moved past its end, reset, and moved once more: it
leaves out the byte, and there is nothing behind that. -/
theorem perform_oneByte :
    ∃ m, ofFile "a" [7] = .ok m ∧
      let now := m.perform [.mutate, .mutate, .mutate, .reset, .mutate]
      now.bytes .bigEndian = [] ∧ now.finished = false ∧ now.mutate.1 = false ∧
        now.mutate.2.finished = true := by
  have hfile : ofFile "a" [7] = .ok (.file { name := "a", data := [7] }) := rfl
  have hmade : Made (.file { name := "a", data := [7] }) (.damaging [7]) := .file hfile
  obtain ⟨-, hbytes, hfinished, hanswer, hend⟩ :=
    perform_follows_variants hmade [.mutate, .mutate, .mutate, .reset, .mutate]
  have hlast : some [] = some (bytes .bigEndian _) := hbytes rfl .bigEndian
  exact ⟨_, rfl, (Option.some.inj hlast).symm, hfinished, hanswer, hend⟩

end Mutator

end ScriptFuzz
