import ScriptFuzz.Proofs.Language.Code

/-!
# How code uses the pools

Every occurrence of a constant or of a name gets an entry of its own in the pools. So the
instructions that take something from a pool take its entries one after the other, each one once.
It follows that no entry is hidden: whoever sees what the instructions take sees the whole pool.

- `PoolsInOrder`: code takes the entries of the pools in their order.
- `Source.Function.poolsInOrder_method`: so does the code of every method.
- `PoolsInOrder.exists_int`, `PoolsInOrder.exists_text`: every entry is taken by an instruction.
-/

namespace ScriptFuzz

namespace Instruction

/-- The integer constant that an instruction takes. -/
def int? : Instruction → Option Nat
  | pushInt i => some i
  | _ => none

/-- The text that an instruction takes. -/
def text? : Instruction → Option Nat
  | pushText i | callHost i _ | getTemplate i => some i
  | _ => none

end Instruction

/-- Code takes the entries of pools with so many integers and texts one after the other. -/
structure PoolsInOrder (code : List Instruction) (ints texts : Nat) : Prop where
  ints : code.filterMap Instruction.int? = List.range ints
  texts : code.filterMap Instruction.text? = List.range texts

namespace PoolsInOrder

variable {code : List Instruction} {ints texts : Nat}

theorem nil : PoolsInOrder [] 0 0 := ⟨rfl, rfl⟩

/-- An instruction that takes nothing from the pools. -/
theorem concat (h : PoolsInOrder code ints texts) {i : Instruction} (hint : i.int? = none)
    (htext : i.text? = none) : PoolsInOrder (code ++ [i]) ints texts where
  ints := by rw [List.filterMap_append, h.ints]; simp [hint]
  texts := by rw [List.filterMap_append, h.texts]; simp [htext]

/-- An instruction that takes the next integer. -/
theorem concat_int (h : PoolsInOrder code ints texts) {i : Instruction} (hint : i.int? = some ints)
    (htext : i.text? = none) : PoolsInOrder (code ++ [i]) (ints + 1) texts where
  ints := by rw [List.filterMap_append, h.ints, List.range_succ]; simp [hint]
  texts := by rw [List.filterMap_append, h.texts]; simp [htext]

/-- An instruction that takes the next text. -/
theorem concat_text (h : PoolsInOrder code ints texts) {i : Instruction} (hint : i.int? = none)
    (htext : i.text? = some texts) : PoolsInOrder (code ++ [i]) ints (texts + 1) where
  ints := by rw [List.filterMap_append, h.ints]; simp [hint]
  texts := by rw [List.filterMap_append, h.texts, List.range_succ]; simp [htext]

/-- Every integer of the pool is taken. -/
theorem exists_int (h : PoolsInOrder code ints texts) {k : Nat} (hk : k < ints) :
    .pushInt k ∈ code := by
  have hmem : k ∈ code.filterMap Instruction.int? := by
    rw [h.ints]
    exact List.mem_range.2 hk
  obtain ⟨i, hi, hik⟩ := List.mem_filterMap.1 hmem
  cases i with
  | pushInt j =>
    cases hik
    exact hi
  | _ => cases hik

/-- Every text of the pool is taken. -/
theorem exists_text (h : PoolsInOrder code ints texts) {k : Nat} (hk : k < texts) :
    ∃ i ∈ code, i.text? = some k := by
  have hmem : k ∈ code.filterMap Instruction.text? := by
    rw [h.texts]
    exact List.mem_range.2 hk
  exact List.mem_filterMap.1 hmem

/-- The code determines how large the pools are. -/
theorem sizes_eq {ints' texts' : Nat} (h : PoolsInOrder code ints texts)
    (h' : PoolsInOrder code ints' texts') : ints = ints' ∧ texts = texts' := by
  have hints := congrArg List.length (h.ints.symm.trans h'.ints)
  have htexts := congrArg List.length (h.texts.symm.trans h'.texts)
  rw [List.length_range, List.length_range] at hints htexts
  exact ⟨hints, htexts⟩

end PoolsInOrder

/-! ## The code of functions -/

namespace CodeBuilder

/-- The code so far takes the entries of the pools so far. -/
def InOrder (b : CodeBuilder) : Prop := PoolsInOrder b.code.toList b.ints.size b.texts.size

variable {b : CodeBuilder}

theorem InOrder.push (h : b.InOrder) {i : Instruction} (hint : i.int? = none)
    (htext : i.text? = none) : (b.push i).InOrder := by
  rw [InOrder, CodeBuilder.push, Array.toList_push]
  exact PoolsInOrder.concat h hint htext

theorem InOrder.pushInt (h : b.InOrder) (n : Int64) : (b.pushInt n).InOrder := by
  rw [InOrder, CodeBuilder.pushInt, Array.toList_push, Array.size_push]
  exact PoolsInOrder.concat_int h rfl rfl

theorem InOrder.pushText (h : b.InOrder) (s : String) {i : Nat → Instruction}
    (hint : (i b.texts.size).int? = none) (htext : (i b.texts.size).text? = some b.texts.size) :
    (b.pushText s i).InOrder := by
  rw [InOrder, CodeBuilder.pushText, Array.toList_push, Array.size_push]
  exact PoolsInOrder.concat_text h hint htext

end CodeBuilder

namespace Source

open CodeBuilder

theorem Term.inOrder_emitAll {names : Naming} {es : List Term} {b : CodeBuilder} (h : b.InOrder)
    (hes : ∀ e ∈ es, ∀ b : CodeBuilder, b.InOrder → (e.emit names b).InOrder) :
    (emitAll names es b).InOrder := by
  induction es generalizing b with
  | nil => exact h
  | cons e es ih =>
    rw [List.forall_mem_cons] at hes
    exact ih (hes.1 b h) hes.2

theorem Term.inOrder_emit (names : Naming) (e : Term) {b : CodeBuilder} (h : b.InOrder) :
    (e.emit names b).InOrder := by
  induction e generalizing b with
  | int n =>
    rw [emit]
    exact h.pushInt _
  | text s =>
    rw [emit]
    exact h.pushText s rfl rfl
  | name x =>
    rw [emit]
    split
    · exact h.push rfl rfl
    · exact h.push rfl rfl
    · exact h.pushText x rfl rfl
  | call f es ih =>
    have harguments := inOrder_emitAll h fun e he _ hb => ih e he hb
    rw [emit]
    cases names.callee f with
    | sizeof => exact harguments.push rfl rfl
    | function i => exact harguments.push rfl rfl
    | host => exact harguments.pushText f rfl rfl
  | arith op l r ihl ihr =>
    rw [emit]
    exact (ihr (ihl h)).push rfl rfl

theorem Statement.inOrder_emitAll (names : Naming) (body : List Statement) {b : CodeBuilder}
    (h : b.InOrder) : (emitAll names body b).InOrder := by
  induction body generalizing names b with
  | nil => exact h
  | cons s body ih =>
    rw [emitAll]
    refine ih _ ((s.term.inOrder_emit names h).push ?_ ?_) <;> cases s <;> rfl

/-- The code of a method takes the entries of its pools. -/
theorem Function.poolsInOrder_method (names : Naming) (f : Function) (index : Nat) :
    PoolsInOrder (f.method names index).code.toList (f.method names index).ints.size
      (f.method names index).texts.size :=
  Statement.inOrder_emitAll (names.enter f.params) f.body (b := {}) PoolsInOrder.nil

end Source

end ScriptFuzz
