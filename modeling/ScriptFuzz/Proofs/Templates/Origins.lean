import ScriptFuzz.Proofs.Expressions.Calls
import ScriptFuzz.Proofs.Templates.FrontEnds
import ScriptFuzz.Proofs.Templates.Serialization

/-!
# Where the mutators of an expression stand

An expression that is read is lowered leaf by leaf: what is no sequence becomes one item, in the
order of the source. The leaves inside a fuzzed sequence become mutators, each listed under the
number of its expression.

- `Expr.leaves`: the leaves in the order of the source.
- `Lowering.Kept`: what stays as it is while leaves are lowered.
- `Lowering.Placed`: how items and listed mutators go with leaves.
- `Lowering.Stands`: the item of a mutator stands where its expression stands, and moving the
  mutator changes no byte of the other items.
- `lower_traced`: how the mutators of an expression go with the expression.
-/

namespace ScriptFuzz

open Cursor

/-! ## Leaves -/

namespace Expr

/-- An integer or a vector. Inside a fuzzed sequence it becomes a mutator. -/
def IsField : Expr → Prop
  | .type _ _ | .constant _ _ _ | .vector _ _ _ _ => True
  | .reference _ _ | .property _ _ _ | .sequence _ _ | .fuzz _ _ => False

/-- A sequence, fuzzed or not. -/
def IsSequence : Expr → Prop
  | .sequence _ _ | .fuzz _ _ => True
  | .type _ _ | .constant _ _ _ | .vector _ _ _ _ | .reference _ _ | .property _ _ _ => False

/-- An integer or a vector that is marked. -/
def Mutates (e : Expr) : Prop := e.IsField ∧ e.tag.fuzzy = true

mutual

/-- The parts that are no sequences, in the order of the source. -/
def leaves : Expr → List Expr
  | .type tag t => [.type tag t]
  | .constant tag t value => [.constant tag t value]
  | .reference tag name => [.reference tag name]
  | .property tag name part => [.property tag name part]
  | .vector tag t lower upper => [.vector tag t lower upper]
  | .sequence _ items | .fuzz _ items => leavesAll items

/-- The leaves of expressions, one after the other. -/
def leavesAll : List Expr → List Expr
  | [] => []
  | e :: es => e.leaves ++ leavesAll es

end

mutual

/-- The leaves are parts, in the same order. -/
theorem leaves_sublist : ∀ e : Expr, e.leaves.Sublist e.postorder
  | .type _ _ | .constant _ _ _ | .reference _ _ | .property _ _ _ | .vector _ _ _ _ =>
    .refl _
  | .sequence _ items | .fuzz _ items =>
    (leavesAll_sublist items).trans (List.sublist_append_left _ _)

theorem leavesAll_sublist : ∀ es : List Expr, (leavesAll es).Sublist (postorderAll es)
  | [] => .refl _
  | e :: es => (leaves_sublist e).append (leavesAll_sublist es)

end

mutual

theorem mem_leaves : ∀ {e x : Expr}, x ∈ e.leaves ↔ x ∈ e.postorder ∧ ¬x.IsSequence
  | .type _ _, x | .constant _ _ _, x | .reference _ _, x | .property _ _ _, x
  | .vector _ _ _ _, x => by
    rw [leaves, postorder, nested, List.nil_append, List.mem_singleton]
    refine ⟨?_, And.left⟩
    rintro rfl
    exact ⟨rfl, id⟩
  | .sequence _ items, x | .fuzz _ items, x => by
    rw [leaves, mem_leavesAll, mem_postorder]
    refine ⟨fun ⟨hx, hleaf⟩ => ⟨.inl hx, hleaf⟩, ?_⟩
    rintro ⟨hx | rfl, hleaf⟩
    · exact ⟨hx, hleaf⟩
    · exact absurd trivial hleaf

theorem mem_leavesAll : ∀ {es : List Expr} {x : Expr},
    x ∈ leavesAll es ↔ x ∈ postorderAll es ∧ ¬x.IsSequence
  | [], x => by simp [leavesAll, postorderAll]
  | e :: es, x => by
    rw [leavesAll, postorderAll, List.mem_append, List.mem_append, mem_leaves, mem_leavesAll,
      ← postorder]
    exact or_and_right.symm

end

/-- The marked integers and vectors are leaves. -/
theorem Mutates.not_isSequence {x : Expr} (h : x.Mutates) : ¬x.IsSequence := by
  cases x with
  | sequence | fuzz => exact absurd h.1 id
  | _ => exact id

/-! ## Lowering leaf by leaf -/

variable {declared : Declared} {s l : Lowering}

theorem lowerAll_append (es fs : List Expr) (s : Lowering) :
    lowerAll declared (es ++ fs) s = (lowerAll declared es s).bind (lowerAll declared fs) := by
  induction es generalizing s with
  | nil => rfl
  | cons e es ih =>
    rw [List.cons_append, lowerAll, lowerAll]
    cases e.lower declared s with
    | ok s => exact ih s
    | error error => rfl

theorem lowerAll_singleton (e : Expr) (s : Lowering) :
    lowerAll declared [e] s = e.lower declared s := by
  rw [lowerAll]
  cases e.lower declared s <;> rfl

mutual

/-- An expression is lowered like its leaves, one after the other. -/
theorem lower_eq_leaves : ∀ (e : Expr) (s : Lowering),
    e.lower declared s = lowerAll declared e.leaves s
  | .type _ _, s | .constant _ _ _, s | .reference _ _, s | .property _ _ _, s
  | .vector _ _ _ _, s => (lowerAll_singleton _ s).symm
  | .sequence _ items, s | .fuzz _ items, s => by
    rw [lower, leaves, lowerAll_eq_leaves]

theorem lowerAll_eq_leaves : ∀ (es : List Expr) (s : Lowering),
    lowerAll declared es s = lowerAll declared (leavesAll es) s
  | [], s => rfl
  | e :: es, s => by
    rw [leavesAll, lowerAll_append, lowerAll, lower_eq_leaves e s]
    cases lowerAll declared e.leaves s with
    | ok s => exact lowerAll_eq_leaves es s
    | error error => rfl

end

theorem not_reaches_scalar (width : Width) (bits : UInt64) (id : MutatorId) :
    ¬(width.scalar bits).Reaches id := by
  cases width <;> intro h <;> cases h

/-- An integer becomes a counter if it is marked, and else it reaches no mutator. -/
theorem lowerScalar_cases {tag : Tag} {t : WireType} {bits : UInt64}
    (h : lowerScalar tag t bits s = .ok l) :
    tag.fuzzy = true ∧ (∃ m, l = s.pushMutator tag.id m) ∨
      ¬tag.fuzzy = true ∧ ∃ item, l = s.push item ∧ ∀ id, ¬item.Reaches id := by
  rw [lowerScalar] at h
  split at h
  · next hfuzzy =>
    cases h
    exact .inr ⟨by simpa using hfuzzy, _, rfl, not_reaches_scalar _ _⟩
  next hfuzzy =>
  split at h
  · cases h
  · cases h
    exact .inl ⟨by simpa using hfuzzy, _, rfl⟩

/-- A leaf becomes one item: a mutator under its number, or a reference to a declared template, or
something without mutators. -/
theorem lower_leaf {e : Expr} (hleaf : ¬e.IsSequence) (h : e.lower declared s = .ok l) :
    e.Mutates ∧ (∃ m, l = s.pushMutator e.tag.id m) ∨
      ¬e.Mutates ∧ ∃ item, l = s.push item ∧ ((∀ id, ¬item.Reaches id) ∨
        ∃ name t, declared.lookup name = some t ∧ item = t.asItem) := by
  cases e with
  | type tag t | constant tag t value =>
    rcases lowerScalar_cases h with ⟨hfuzzy, hl⟩ | ⟨hfuzzy, item, hl, hitem⟩
    · exact .inl ⟨⟨trivial, hfuzzy⟩, hl⟩
    · exact .inr ⟨fun hm => hfuzzy hm.2, item, hl, .inl hitem⟩
  | reference tag name =>
    rw [lower] at h
    split at h
    · next target htarget =>
      cases h
      exact .inr ⟨And.left, _, rfl, .inr ⟨name, target, htarget, rfl⟩⟩
    · cases h
  | property tag name part => cases h
  | vector tag t lower upper =>
    rw [Expr.lower] at h
    split at h
    · next hfuzzy =>
      cases h
      exact .inl ⟨⟨trivial, hfuzzy⟩, _, rfl⟩
    next hfuzzy =>
    split at h
    · cases h
      exact .inr ⟨fun hm => hfuzzy hm.2, _, rfl, .inl fun id hid => by cases hid⟩
    · cases h
  | sequence | fuzz => exact absurd trivial hleaf

end Expr

/-- A relation between what was lowered before and later, which only asks for what lowering one more
leaf leaves as it is. -/
structure Lowering.Kept (R : Lowering → Lowering → Prop) : Prop where
  refl : ∀ s : Lowering, R s s
  trans : ∀ {s s' l : Lowering}, R s s' → R s' l → R s l
  push : ∀ (s : Lowering) (item : Item), R s (s.push item)
  pushMutator : ∀ (s : Lowering) (id : Nat) (m : Mutator), R s (s.pushMutator id m)

namespace Lowering.Kept

variable {R : Lowering → Lowering → Prop} {declared : Declared} {s l : Lowering}

/-- Lowering leaves keeps what lowering one more leaf keeps. -/
theorem of_lowerAll (hR : Kept R) {xs : List Expr} (hleaves : ∀ x ∈ xs, ¬x.IsSequence)
    (h : Expr.lowerAll declared xs s = .ok l) : R s l := by
  induction xs generalizing s with
  | nil =>
    cases h
    exact hR.refl l
  | cons x xs ih =>
    obtain ⟨hx, hleaves⟩ := List.forall_mem_cons.1 hleaves
    rw [Expr.lowerAll] at h
    split at h
    case h_2 => cases h
    next s' hs' =>
    refine hR.trans ?_ (ih hleaves h)
    rcases Expr.lower_leaf hx hs' with ⟨-, m, rfl⟩ | ⟨-, item, rfl, -⟩
    · exact hR.pushMutator s x.tag.id m
    · exact hR.push s item

/-- Lowering an expression has lowered each leaf, and has kept what that has added. -/
theorem exists_lower_of_mem (hR : Kept R) {e x : Expr} (h : e.lower declared s = .ok l)
    (hx : x ∈ e.leaves) : ∃ s₁ s₂, x.lower declared s₁ = .ok s₂ ∧ R s₂ l := by
  have hleaves : ∀ y ∈ e.leaves, ¬y.IsSequence := fun y hy => (Expr.mem_leaves.1 hy).2
  rw [Expr.lower_eq_leaves] at h
  obtain ⟨before, behind, hsplit⟩ := List.append_of_mem hx
  rw [hsplit] at h hleaves
  rw [Expr.lowerAll_append] at h
  cases hbefore : Expr.lowerAll declared before s with
  | error error =>
    rw [hbefore] at h
    cases h
  | ok s₁ =>
    rw [hbefore, Except.bind, Expr.lowerAll] at h
    split at h
    · next s₂ hs₂ => exact ⟨s₁, s₂, hs₂, hR.of_lowerAll (fun y hy => hleaves y (by simp [hy])) h⟩
    · cases h

end Lowering.Kept

/-! ## How items go with leaves -/

namespace Lowering

section

variable (s : Lowering) (item : Item) (id : Nat) (m : Mutator)

@[simp] theorem toList_items_push :
    (s.push item).builder.items.toList = s.builder.items.toList ++ [item] := by
  rw [push, TemplateBuilder.push, Array.toList_push]

@[simp] theorem toList_items_pushMutator :
    (s.pushMutator id m).builder.items.toList =
      s.builder.items.toList ++ [.mutator s.builder.pool.states.size] := by
  rw [pushMutator, TemplateBuilder.pushMutator, Pool.add, Array.toList_push]

@[simp] theorem toList_origins_pushMutator :
    (s.pushMutator id m).origins.toList =
      s.origins.toList ++ [(id, s.builder.pool.states.size)] := by
  rw [pushMutator, TemplateBuilder.pushMutator, Pool.add, Array.toList_push]

@[simp] theorem states_pushMutator :
    (s.pushMutator id m).builder.pool.states = s.builder.pool.states.push m := rfl

end

/-- Items that leaves become, and the mutators that are listed for them, where `next` is the number
of the first one in the pool. Any other item is no mutator, and reaches only those below `bound`. -/
inductive Placed (bound : MutatorId) :
    (next : MutatorId) → List Expr → List Item → List (Nat × MutatorId) → Prop
  | nil (next : MutatorId) : Placed bound next [] [] []
  | mutator {next : MutatorId} {x : Expr} {xs : List Expr} {items : List Item}
      {origins : List (Nat × MutatorId)} (hx : x.Mutates)
      (h : Placed bound (next + 1) xs items origins) :
      Placed bound next (x :: xs) (.mutator next :: items) ((x.tag.id, next) :: origins)
  | plain {next : MutatorId} {x : Expr} {xs : List Expr} {item : Item} {items : List Item}
      {origins : List (Nat × MutatorId)} (hx : ¬x.Mutates) (hitem : ∀ id, item ≠ .mutator id)
      (hreach : ∀ id, item.Reaches id → id < bound) (h : Placed bound next xs items origins) :
      Placed bound next (x :: xs) (item :: items) origins

variable {bound next : MutatorId} {xs : List Expr} {items : List Item}
  {origins : List (Nat × MutatorId)}

theorem Placed.length_eq (h : Placed bound next xs items origins) : items.length = xs.length := by
  induction h with
  | nil => rfl
  | mutator _ _ ih | plain _ _ _ _ ih => exact congrArg (· + 1) ih

/-- The mutators among the items are those that are listed, in the same order. -/
theorem Placed.mutators (h : Placed bound next xs items origins) :
    ({ items } : Template).mutators = origins.map (·.2) := by
  induction h with
  | nil => rfl
  | mutator _ _ ih => exact congrArg (_ :: ·) ih
  | @plain _ _ _ item _ _ _ hitem _ _ ih =>
    rw [← ih]
    cases item with
    | mutator id => exact absurd rfl (hitem id)
    | _ => rfl

/-- The mutators are listed in the order of the leaves. -/
theorem Placed.sublist (h : Placed bound next xs items origins) :
    (origins.map (·.1)).Sublist (xs.map (·.tag.id)) := by
  induction h with
  | nil => exact .refl _
  | mutator _ _ ih => exact ih.cons_cons _
  | plain _ _ _ _ ih => exact ih.cons _

/-- Exactly the marked integers and vectors are listed. -/
theorem Placed.mem_keys (h : Placed bound next xs items origins) {id : Nat} :
    id ∈ origins.map (·.1) ↔ ∃ x ∈ xs, x.Mutates ∧ x.tag.id = id := by
  induction h with
  | nil => simp
  | mutator hx _ ih => simp [ih, hx, eq_comm]
  | plain hx _ _ _ ih => simp [ih, hx]

theorem Placed.le_of_mem (h : Placed bound next xs items origins) {id : Nat} {mid : MutatorId}
    (hmem : (id, mid) ∈ origins) : next ≤ mid := by
  induction h with
  | nil => cases hmem
  | mutator _ _ ih =>
    cases hmem with
    | head => exact Nat.le_refl _
    | tail _ hmem => exact Nat.le_of_succ_le (ih hmem)
  | plain _ _ _ _ ih => exact ih hmem

theorem Placed.lt_of_mem (h : Placed bound next xs items origins) {id : Nat} {mid : MutatorId}
    (hmem : (id, mid) ∈ origins) : mid < next + origins.length := by
  induction h with
  | nil => cases hmem
  | @mutator next _ _ _ origins _ _ ih =>
    rw [List.length_cons, ← Nat.add_assoc, Nat.add_right_comm]
    cases hmem with
    | head => exact Nat.lt_of_succ_le (Nat.le_add_right _ _)
    | tail _ hmem => exact ih hmem
  | plain _ _ _ _ ih => exact ih hmem

/-- The items reach mutators from `next` on and below `bound`. -/
theorem Placed.reaches_cases (h : Placed bound next xs items origins) {item : Item}
    (hitem : item ∈ items) {id : MutatorId} (hreach : item.Reaches id) :
    id < bound ∨ next ≤ id := by
  induction h with
  | nil => cases hitem
  | mutator _ _ ih =>
    cases hitem with
    | head =>
      cases hreach
      exact .inr (Nat.le_refl _)
    | tail _ hitem => exact (ih hitem).imp_right Nat.le_of_succ_le
  | plain _ _ hplain _ ih =>
    cases hitem with
    | head => exact .inl (hplain id hreach)
    | tail _ hitem => exact ih hitem

/-- The item of a listed mutator stands where its leaf stands, and no other item reaches it. -/
theorem Placed.exists_split (h : Placed bound next xs items origins) (hle : bound ≤ next) {id : Nat}
    {mid : MutatorId} (hmem : (id, mid) ∈ origins) :
    ∃ before x after front behind, xs = before ++ x :: after ∧ x.tag.id = id ∧
      items = front ++ .mutator mid :: behind ∧ front.length = before.length ∧
      behind.length = after.length ∧ ∀ item ∈ front ++ behind, ¬item.Reaches mid := by
  induction h with
  | nil => cases hmem
  | @mutator next x xs items origins hx h ih =>
    cases hmem with
    | head =>
      refine ⟨[], x, xs, [], items, rfl, rfl, rfl, rfl, h.length_eq, ?_⟩
      intro item hitem hreach
      rcases h.reaches_cases hitem hreach with hlt | hlt
      · exact Nat.not_le_of_lt hlt hle
      · exact Nat.lt_irrefl _ hlt
    | tail _ hmem =>
      have hlt := h.le_of_mem hmem
      obtain ⟨before, y, after, front, behind, rfl, hid, rfl, hfront, hbehind, hothers⟩ :=
        ih (Nat.le_succ_of_le hle) hmem
      refine ⟨x :: before, y, after, .mutator next :: front, behind, rfl, hid, rfl,
        congrArg (· + 1) hfront, hbehind, List.forall_mem_cons.2 ⟨?_, hothers⟩⟩
      intro hreach
      cases hreach
      exact Nat.lt_irrefl _ hlt
  | @plain next x xs item items origins hx hitem hplain h ih =>
    have hlt := h.le_of_mem hmem
    obtain ⟨before, y, after, front, behind, rfl, hid, rfl, hfront, hbehind, hothers⟩ := ih hle hmem
    refine ⟨x :: before, y, after, item :: front, behind, rfl, hid, rfl,
      congrArg (· + 1) hfront, hbehind, List.forall_mem_cons.2 ⟨?_, hothers⟩⟩
    intro hreach
    exact Nat.not_le_of_lt (hplain mid hreach) (Nat.le_trans hle hlt)

end Lowering

namespace Expr

variable {declared : Declared} {bound : MutatorId} {s l : Lowering}

/-- Leaves are lowered to items that go with them, behind those that are there already. -/
theorem exists_placed
    (hdeclared : ∀ name t, declared.lookup name = some t → ∀ id, t.Reaches id → id < bound)
    {xs : List Expr} (hleaves : ∀ x ∈ xs, ¬x.IsSequence) (h : lowerAll declared xs s = .ok l) :
    ∃ items origins, l.builder.items.toList = s.builder.items.toList ++ items ∧
      l.origins.toList = s.origins.toList ++ origins ∧
      l.builder.pool.states.size = s.builder.pool.states.size + origins.length ∧
      Lowering.Placed bound s.builder.pool.states.size xs items origins := by
  induction xs generalizing s with
  | nil =>
    cases h
    exact ⟨[], [], (List.append_nil _).symm, (List.append_nil _).symm, rfl, .nil _⟩
  | cons x xs ih =>
    obtain ⟨hx, hleaves⟩ := List.forall_mem_cons.1 hleaves
    rw [lowerAll] at h
    split at h
    case h_2 => cases h
    next s' hs' =>
    obtain ⟨items, origins, hitems, horigins, hsize, hplaced⟩ := ih hleaves h
    rcases lower_leaf hx hs' with ⟨hmutates, m, rfl⟩ | ⟨hplain, item, rfl, hitem⟩
    · refine ⟨.mutator s.builder.pool.states.size :: items,
        (x.tag.id, s.builder.pool.states.size) :: origins, ?_, ?_, ?_, .mutator hmutates ?_⟩
      · simp [hitems]
      · simp [horigins]
      · rw [hsize, Lowering.states_pushMutator, Array.size_push, List.length_cons,
          Nat.add_assoc, Nat.add_comm 1]
      · simpa using hplaced
    · refine ⟨item :: items, origins, ?_, horigins, hsize, .plain hplain ?_ ?_ hplaced⟩
      · simp [hitems]
      · rintro id rfl
        rcases hitem with hnone | ⟨name, t, -, heq⟩
        · exact hnone id .mutator
        · cases heq
      · intro id hreach
        rcases hitem with hnone | ⟨name, t, ht, rfl⟩
        · exact absurd hreach (hnone id)
        · cases hreach with | reference hmem hreach =>
          exact hdeclared name t ht id ⟨_, hmem, hreach⟩

end Expr

/-! ## Moving one mutator -/

namespace Pool

variable {pool : Pool} {times times' : MutatorId → Nat} {id : MutatorId}

theorem state_advance (h : id < pool.states.size) (times : MutatorId → Nat) :
    (pool.advance times).state id = (pool.state id).after (times id) := by
  simp [advance, state, h]

/-- The state of a mutator depends on how often it is moved itself. -/
theorem state_advance_congr (h : times id = times' id) :
    (pool.advance times).state id = (pool.advance times').state id := by
  simp only [advance, state, Array.getD_eq_getD_getElem?, Array.getElem?_mapIdx, h]

end Pool

/-- If no other item reaches a mutator, then moving it changes no byte of the other items. -/
theorem Template.generate_update {t : Template} {pool : Pool} {mid : MutatorId}
    {front behind : List Item} (ht : t.items = front ++ .mutator mid :: behind)
    (hmid : mid < pool.states.size) (hothers : ∀ item ∈ front ++ behind, ¬item.Reaches mid)
    (times : MutatorId → Nat) (k : Nat) :
    (pool.Blocks t.items →
      t.generate (pool.advance (Function.update times mid k)) = .error .mutatorBusy) ∧
    (¬pool.Blocks t.items →
      t.generate (pool.advance (Function.update times mid k)) =
        .ok (Item.encodings (pool.advance times) t.order front ++
          ((pool.state mid).after k).bytes t.order ++
          Item.encodings (pool.advance times) t.order behind)) := by
  refine ⟨fun hblocks => generate_of_blocked hblocks, fun hblocks => ?_⟩
  have hsame : ∀ id, id ≠ mid →
      (pool.advance (Function.update times mid k)).state id = (pool.advance times).state id :=
    fun id hne => Pool.state_advance_congr (Function.update_of_ne hne _ _)
  have hfront := Item.encodings_congr t.order front fun id item hmem hreach =>
    hsame id fun heq => hothers item (List.mem_append_left _ hmem) (heq ▸ hreach)
  have hbehind := Item.encodings_congr t.order behind fun id item hmem hreach =>
    hsame id fun heq => hothers item (List.mem_append_right _ hmem) (heq ▸ hreach)
  -- moving mutators does not change which of them are held
  have hfree : ¬(pool.advance (Function.update times mid k)).Blocks t.items := hblocks
  rw [generate_eq_encoding hfree, encoding, ht, Item.encodings_append, Item.encodings,
    Item.encoding, Pool.state_advance hmid, Function.update_self, hfront, hbehind,
    List.append_assoc]

/-! ## The mutators of an expression -/

namespace Lowering

variable {bound : MutatorId} {items : List Item} {origins : List (Nat × MutatorId)}

/-- The item of the mutator `mid` stands where the leaf with the number `id` stands. In any byte
order and however far the mutators are moved, the bytes of the item are between those of the items
in front and behind, and how often `mid` is moved has an influence on these bytes alone. If a
mutator of the template is held elsewhere, then nothing is written before and after moving. -/
def Stands (e : Expr) (l : Lowering) (id : Nat) (mid : MutatorId) : Prop :=
  ∃ before x after front behind,
    e.leaves = before ++ x :: after ∧ x.tag.id = id ∧
    l.builder.template.items = front ++ .mutator mid :: behind ∧
    front.length = before.length ∧ behind.length = after.length ∧
    ∀ (order : ByteOrder) (times : MutatorId → Nat) (k : Nat),
      (l.builder.pool.Blocks l.builder.template.items →
        { l.builder.template with order }.generate
          (l.builder.pool.advance (Function.update times mid k)) = .error .mutatorBusy) ∧
      (¬l.builder.pool.Blocks l.builder.template.items →
        { l.builder.template with order }.generate
          (l.builder.pool.advance (Function.update times mid k)) =
            .ok (Item.encodings (l.builder.pool.advance times) order front ++
              ((l.builder.pool.state mid).after k).bytes order ++
              Item.encodings (l.builder.pool.advance times) order behind))

/-- A listed mutator stands where its expression stands, if the mutators behind those of the
declared templates are the listed ones. -/
theorem Placed.stands {e : Expr} {l : Lowering} (h : Placed bound bound e.leaves items origins)
    (hitems : l.builder.items.toList = items)
    (hsize : l.builder.pool.states.size = bound + origins.length) {id : Nat} {mid : MutatorId}
    (hmem : (id, mid) ∈ origins) : Stands e l id mid := by
  obtain ⟨before, x, after, front, behind, hleaves, hid, rfl, hfront, hbehind, hothers⟩ :=
    h.exists_split (Nat.le_refl _) hmem
  have hmid : mid < l.builder.pool.states.size := by
    rw [hsize]
    exact h.lt_of_mem hmem
  refine ⟨before, x, after, front, behind, hleaves, hid, hitems, hfront, hbehind, ?_⟩
  intro order times k
  exact Template.generate_update (t := { l.builder.template with order }) hitems hmid hothers times
    k

/-- How the mutators of a lowered expression go with the expression. -/
structure Traced (e : Expr) (l : Lowering) : Prop where
  /-- Each mutator is listed under a number of its own, in increasing order. -/
  increasing : (l.mutators.map (·.1)).Pairwise (· < ·)
  /-- The numbers are those of the integers and vectors inside a fuzzed sequence. -/
  listed : ∀ id, id ∈ l.mutators.map (·.1) ↔
    ∃ x ∈ e.postorder, x.IsField ∧ x.InsideFuzz e ∧ x.tag.id = id
  /-- In the order of the numbers, the mutators are those of the template in the order of its
  items. -/
  mutators : l.mutators.map (·.2) = l.builder.template.mutators
  /-- Each of them stands where its expression stands. -/
  stands : ∀ id mid, (id, mid) ∈ l.mutators → Stands e l id mid

end Lowering

/-- An expression that calls have read from a source is lowered to a template whose mutators are
listed under the numbers of the marked integers and vectors, in their order. The mutators of the
declared templates are in the pool, and the new ones are put behind them. -/
theorem lower_traced (source : String) (calls : List ExprCall) {e : Expr}
    (he : e ∈ ((Cursor.ofSource source 0).answers (TokenStream.ofSource source).fin calls).flatMap
      ExprAnswer.trees) {declared : Declared} {pool : Pool} {l : Lowering}
    (hdeclared : ∀ name t, declared.lookup name = some t → ∀ id, t.Reaches id →
      id < pool.states.size)
    (h : e.lower declared { builder := { pool } } = .ok l) : Lowering.Traced e l := by
  have htagged :=
    (Cursor.ofSource source 0).tagged_answers rfl (TokenStream.ofSource source).fin calls
  rw [Expr.lower_eq_leaves] at h
  obtain ⟨items, origins, hitems, horigins, hsize, hplaced⟩ :=
    Expr.exists_placed hdeclared (fun x hx => (Expr.mem_leaves.1 hx).2) h
  simp only [List.nil_append] at hitems horigins
  -- the leaves are in postorder, so the mutators are listed in increasing order already
  have hincreasing : (origins.map (·.1)).Pairwise (· < ·) := by
    have hpostorder := List.pairwise_map.2 (htagged.postorder e he)
    exact hpostorder.sublist (hplaced.sublist.trans (e.leaves_sublist.map _))
  have hmutators : l.mutators = origins := by
    rw [Lowering.mutators_of_sorted, horigins]
    rw [horigins]
    exact List.pairwise_map.1 hincreasing
  refine { increasing := ?increasing, listed := ?listed, mutators := ?mutators, stands := ?stands }
  case increasing => rwa [hmutators]
  case listed =>
    intro id
    rw [hmutators, hplaced.mem_keys]
    constructor
    · rintro ⟨x, hx, hmutates, hid⟩
      have hpart := (Expr.mem_leaves.1 hx).1
      exact ⟨x, hpart, hmutates.1, (htagged.fuzzy e he x hpart).1 hmutates.2, hid⟩
    · rintro ⟨x, hpart, hfield, hinside, hid⟩
      have hmutates : x.Mutates := ⟨hfield, (htagged.fuzzy e he x hpart).2 hinside⟩
      exact ⟨x, Expr.mem_leaves.2 ⟨hpart, hmutates.not_isSequence⟩, hmutates, hid⟩
  case mutators => rw [hmutators, TemplateBuilder.template, hitems, hplaced.mutators]
  case stands =>
    intro id mid hmem
    rw [hmutators] at hmem
    exact hplaced.stands hitems hsize hmem

/-- A counter stands behind a declared template, which has a mutator of its own. -/
theorem lower_traced_behind_reference :
    ∃ e l, e ∈ ((Cursor.ofSource "[$t, {u16}]" 0).answers
        (TokenStream.ofSource "[$t, {u16}]").fin [.expression]).flatMap ExprAnswer.trees ∧
      e.lower [("t", { items := [.mutator 0] })]
        { builder := { pool := { states := #[.ofWidth .one 7] } } } = .ok l ∧
      l.mutators = [(1, 1)] ∧ Lowering.Stands e l 1 1 := by
  let e : Expr := .sequence ⟨3, false⟩
    [.reference ⟨0, false⟩ "t", .fuzz ⟨2, false⟩ [.type ⟨1, true⟩ ⟨.two, false⟩]]
  let pool : Pool := { states := #[.ofWidth .one 7] }
  have he : e ∈ ((Cursor.ofSource "[$t, {u16}]" 0).answers
      (TokenStream.ofSource "[$t, {u16}]").fin [.expression]).flatMap ExprAnswer.trees :=
    Eq.mpr (congrArg (e ∈ ·) (by cbv)) (List.mem_singleton_self e)
  have hdeclared : ∀ name t, List.lookup name [("t", ({ items := [.mutator 0] } : Template))] =
      some t → ∀ id, t.Reaches id → id < pool.states.size := by
    intro name t ht id hid
    obtain rfl : { items := [.mutator 0] } = t := by
      rw [List.lookup_cons] at ht
      split at ht
      · exact Option.some.inj ht
      · cases ht
    obtain ⟨item, hitem, hreach⟩ := hid
    obtain rfl := List.mem_singleton.1 hitem
    cases hreach
    exact Nat.zero_lt_one
  obtain ⟨l, hl, hmutators⟩ : ∃ l, e.lower [("t", { items := [.mutator 0] })]
      { builder := { pool } } = .ok l ∧ l.mutators = [(1, 1)] := ⟨_, rfl, by cbv⟩
  have htraced := lower_traced "[$t, {u16}]" [.expression] he hdeclared hl
  refine ⟨e, l, he, hl, hmutators, htraced.stands 1 1 ?_⟩
  rw [hmutators]
  exact List.mem_singleton_self _

end ScriptFuzz
