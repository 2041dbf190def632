import ScriptFuzz.Proofs.Campaign.States
import ScriptFuzz.Proofs.Templates.Serialization

/-!
# Changes of templates

A template is serialized item by item. So an item that is put in the place of another one changes
the bytes that this one had, and a mutator that moves on changes those of the items that reach it.
All other bytes stay, and they stay in their order.

- `Template.alone`: what items are serialized to if the template has no others. A row of items is
  serialized to what its parts are (`alone_append`).
- `Template.placing`: an item is put into the template at hand.
- `PlaceRule`: what comes of it.
- `Template.Segments`: the serialization, cut into that of each item.
- `MoveRule`: what comes of it that a mutator moves on.
- `Template.changes_local`: templates are changed by these rules, and inside references too.
-/

namespace ScriptFuzz

namespace Template

variable {t : Template} {pool pool' : Pool} {items : List Item}

/-! ## Parts of a template -/

/-- What items are serialized to if the template has no others. -/
def alone (t : Template) (pool : Pool) (items : List Item) : Except TemplateError Bytes :=
  { t with items }.generate pool

theorem alone_of_blocked (h : pool.Blocks items) : t.alone pool items = .error .mutatorBusy :=
  generate_of_blocked h

theorem alone_of_free (h : ¬pool.Blocks items) :
    t.alone pool items = .ok (Item.encodings pool t.order items) :=
  generate_eq_encoding h

/-- A row of items is serialized to what its parts are, one behind the other. -/
theorem alone_append (t : Template) (pool : Pool) (xs ys : List Item) :
    t.alone pool (xs ++ ys) = (do
      let x ← t.alone pool xs
      let y ← t.alone pool ys
      return x ++ y) := by
  by_cases hx : pool.Blocks xs
  · rw [alone_of_blocked (Pool.blocks_append.2 (.inl hx)), alone_of_blocked hx]
    rfl
  by_cases hy : pool.Blocks ys
  · rw [alone_of_blocked (Pool.blocks_append.2 (.inr hy)), alone_of_free hx, alone_of_blocked hy]
    rfl
  have hfree : ¬pool.Blocks (xs ++ ys) := by
    rw [Pool.blocks_append]
    exact not_or.2 ⟨hx, hy⟩
  rw [alone_of_free hfree, alone_of_free hx, alone_of_free hy, Item.encodings_append]
  rfl

/-- A reference is serialized to what the template is that it refers to. -/
theorem alone_reference (t : Template) (pool : Pool) (items : List Item) (own : ByteOrder) :
    t.alone pool [.reference items own] = generate pool { items, order := own } := by
  by_cases h : pool.Blocks items
  · rw [alone_of_blocked (Pool.blocks_reference.2 h), generate_of_blocked h]
  · rw [alone_of_free (mt Pool.blocks_reference.1 h), generate_eq_encoding h, Item.encodings,
      Item.encodings, Item.encoding, List.append_nil]
    rfl

/-- Items are serialized to the same if the same mutators are held and those that the items reach
are in the same states. -/
theorem alone_congr (hheld : pool'.held = pool.held)
    (h : ∀ id, ∀ item ∈ items, item.Reaches id → pool'.state id = pool.state id) :
    t.alone pool' items = t.alone pool items := by
  have hblocks := Pool.blocks_congr hheld items
  by_cases hb : pool.Blocks items
  · rw [alone_of_blocked hb, alone_of_blocked (hblocks.2 hb)]
  · rw [alone_of_free hb, alone_of_free (mt hblocks.1 hb), Item.encodings_congr t.order items h]

/-! ## Putting an item in -/

/-- Puts an item into the template at hand. If there is no item at the position, the template is
kept. -/
def placing (item : Item) (position : Option Nat) : EStateM TemplateError Template Nat := fun t =>
  match t.place item position with
  | .ok (landed, t) => .ok landed t
  | .error e => .error e t

/-- What is written of the items in front, of an item, and of the items behind. -/
def around (t : Template) (pool : Pool) (front : List Item) (item : Item) (behind : List Item) :
    Except TemplateError Bytes := do
  let x ← t.alone pool front
  let segment ← t.alone pool [item]
  let y ← t.alone pool behind
  return x ++ segment ++ y

theorem generate_eq_around {front behind : List Item} {item : Item}
    (h : t.items = front ++ item :: behind) (pool : Pool) :
    t.generate pool = t.around pool front item behind := by
  have hrow : t.items = front ++ ([item] ++ behind) := h
  show t.alone pool t.items = _
  rw [hrow, alone_append, alone_append, around]
  simp only [bind_assoc, pure_bind, List.append_assoc]

/-- A template with an item in the place of another one. -/
structure Replaced (t : Template) (p : Nat) (item : Item) (t' : Template) : Prop where
  size_eq : t'.size = t.size
  order_eq : t'.order = t.order
  /-- The bytes in front and behind stay, and those between them are the item's. -/
  bytes : ∃ front old behind, t.items = front ++ old :: behind ∧ front.length = p ∧
    t'.items = front ++ item :: behind ∧
    ∀ pool, t.generate pool = t.around pool front old behind ∧
      t'.generate pool = t.around pool front item behind

/-- What comes of an item that is put into a template. -/
structure PlaceRule (t : Template) (item : Item) (position : Option Nat)
    (result : EStateM.Result TemplateError Template Nat) : Prop where
  /-- An item can be put at the end, and in the place of another one. -/
  isOk_iff : (∃ landed t', result = .ok landed t') ↔ ∀ p, position = some p → p < t.size
  replaced : ∀ p, position = some p → ∀ landed t', result = .ok landed t' →
    landed = p ∧ Replaced t p item t'
  appended : position = none → ∀ landed t', result = .ok landed t' →
    landed = t.size ∧ t'.order = t.order ∧ t'.items = t.items ++ [item]
  /-- If there is no item at the position, nothing is changed. -/
  refused : ∀ e t', result = .error e t' →
    t' = t ∧ ∃ p, position = some p ∧ e = .invalidPosition p t.size

theorem placing_of_lt {p : Nat} (item : Item) (h : p < t.size) :
    placing item (some p) t = .ok p { t with items := t.items.set p item } := by
  rw [placing, place, if_pos h]

theorem placing_of_le {p : Nat} (item : Item) (h : t.size ≤ p) :
    placing item (some p) t = .error (.invalidPosition p t.size) t := by
  rw [placing, place, if_neg (Nat.not_lt.2 h)]

theorem replaced_set {p : Nat} (item : Item) (h : p < t.size) :
    Replaced t p item { t with items := t.items.set p item } := by
  have hp : p < t.items.length := h
  have hsplit : t.items = t.items.take p ++ t.items[p] :: t.items.drop (p + 1) := by
    rw [List.getElem_cons_drop, List.take_append_drop]
  have hset : t.items.set p item = t.items.take p ++ item :: t.items.drop (p + 1) :=
    List.set_eq_take_append_cons_drop.trans (if_pos h)
  refine ⟨List.length_set, rfl, t.items.take p, t.items[p], t.items.drop (p + 1), hsplit,
    List.length_take_of_le (Nat.le_of_lt h), hset, ?_⟩
  intro pool
  exact ⟨generate_eq_around hsplit pool, generate_eq_around hset pool⟩

theorem placeRule (t : Template) (item : Item) (position : Option Nat) :
    PlaceRule t item position (placing item position t) := by
  cases position with
  | none =>
    have happend : placing item none t = .ok t.size { t with items := t.items ++ [item] } := rfl
    rw [happend]
    refine ⟨⟨nofun, fun _ => ⟨_, _, rfl⟩⟩, nofun, ?_, nofun⟩
    rintro - _ _ ⟨⟩
    exact ⟨rfl, rfl, rfl⟩
  | some p =>
    by_cases h : p < t.size
    · rw [placing_of_lt item h]
      refine ⟨⟨?_, fun _ => ⟨_, _, rfl⟩⟩, ?_, nofun, nofun⟩
      · rintro - _ ⟨⟩
        exact h
      · rintro _ ⟨⟩ _ _ ⟨⟩
        exact ⟨rfl, replaced_set item h⟩
    · have hle := Nat.le_of_not_lt h
      rw [placing_of_le item hle]
      refine ⟨⟨nofun, fun hp => absurd (hp p rfl) h⟩, nofun, nofun, ?_⟩
      rintro _ _ ⟨⟩
      exact ⟨rfl, p, rfl, rfl⟩

/-! ## Moving a mutator -/

/-- The serialization of a template, cut into that of each item. -/
structure Segments (t : Template) (pool : Pool) (segments : List Bytes) : Prop where
  items : List.Forall₂ (fun item segment => t.alone pool [item] = .ok segment) t.items segments
  generate_eq : t.generate pool = .ok segments.flatten

theorem exists_segments (h : ¬pool.Blocks t.items) : ∃ segments, t.Segments pool segments := by
  refine ⟨t.items.map (Item.encoding pool t.order), ?_, ?_⟩
  · rw [List.forall₂_map_right_iff, List.forall₂_same]
    intro item hitem
    rw [alone_of_free (Pool.not_blocks_of_mem h hitem), Item.encodings, Item.encodings,
      List.append_nil]
  · rw [generate_eq_encoding h, encoding, Item.encodings_eq_flatten]

/-- Each item has its segment. -/
theorem Segments.exists_segment {segments : List Bytes} (h : t.Segments pool segments) {i : Nat}
    {item : Item} (hitem : t.items[i]? = some item) :
    ∃ segment, segments[i]? = some segment ∧ t.alone pool [item] = .ok segment := by
  obtain ⟨hi, rfl⟩ := List.getElem?_eq_some_iff.1 hitem
  have hi' : i < segments.length := h.items.length_eq ▸ hi
  exact ⟨_, List.getElem?_eq_getElem hi', h.items.get hi hi'⟩

theorem Segments.not_blocks {segments : List Bytes} (h : t.Segments pool segments) :
    ¬pool.Blocks t.items := by
  intro hblocks
  cases (generate_of_blocked hblocks).symm.trans h.generate_eq

/-- What comes of it that a mutator moves on, from one pool to another. -/
structure MoveRule (t : Template) (id : MutatorId) (pool pool' : Pool) : Prop where
  /-- If nobody holds a mutator, then the template has a serialization. -/
  free : pool.held = [] → ∃ segments, t.Segments pool segments
  /-- The segments of items that do not reach the mutator stay, and they stay in their places. -/
  moved : ∀ segments, t.Segments pool segments → ∃ segments', t.Segments pool' segments' ∧
    ∀ (i : Nat) (item : Item), t.items[i]? = some item → ¬item.Reaches id →
      segments'[i]? = segments[i]?
  /-- If a mutator that the template reaches is held, then there is no serialization before and
  after. -/
  blocked : t.generate pool = .error .mutatorBusy → t.generate pool' = .error .mutatorBusy
  /-- A template that does not reach the mutator has the same serialization. -/
  unreached : ¬t.Reaches id → t.generate pool' = t.generate pool

theorem moveRule (hheld : pool'.held = pool.held) {id : MutatorId}
    (hstate : ∀ other, other ≠ id → pool'.state other = pool.state other) :
    MoveRule t id pool pool' := by
  have hblocks : pool'.Blocks t.items ↔ pool.Blocks t.items := Pool.blocks_congr hheld t.items
  refine ⟨?_, ?_, ?_, ?_⟩
  · intro hnobody
    exact exists_segments (Pool.not_blocks hnobody t.items)
  · intro segments hsegments
    obtain ⟨segments', hsegments'⟩ := exists_segments (mt hblocks.1 hsegments.not_blocks)
    refine ⟨segments', hsegments', ?_⟩
    intro i item hitem hreach
    obtain ⟨segment, hsegment, halone⟩ := hsegments.exists_segment hitem
    obtain ⟨segment', hsegment', halone'⟩ := hsegments'.exists_segment hitem
    have hsame : t.alone pool' [item] = t.alone pool [item] := by
      refine alone_congr hheld ?_
      intro other x hx hother
      obtain rfl := List.mem_singleton.1 hx
      refine hstate other ?_
      rintro rfl
      exact hreach hother
    rw [halone, halone'] at hsame
    cases hsame
    rw [hsegment, hsegment']
  · intro hbusy
    by_cases hb : pool.Blocks t.items
    · exact generate_of_blocked (hblocks.2 hb)
    · cases (generate_eq_encoding hb).symm.trans hbusy
  · intro hreach
    refine alone_congr hheld ?_
    intro other item hitem hother
    refine hstate other ?_
    rintro rfl
    exact hreach ⟨item, hitem, hother⟩

/-- Templates are changed in one place. An item takes the place of another one just if there is one
at the position, and what is written in front and behind stays. However often a mutator moves on,
only what is written of items that reach it can change. As a reference is serialized to what the
template is that it refers to, this goes on inside references. -/
theorem changes_local :
    (∀ (t : Template) (item : Item) (position : Option Nat),
      PlaceRule t item position (placing item position t)) ∧
    (∀ (t : Template) (pool : Pool) (id : MutatorId) (moves : Nat),
      MoveRule t id pool (pool.update id (·.after moves))) ∧
    ∀ (t : Template) (pool : Pool) (items : List Item) (own : ByteOrder),
      t.alone pool [.reference items own] = generate pool { items, order := own } := by
  refine ⟨placeRule, ?_, alone_reference⟩
  intro t pool id moves
  have hheld : (pool.update id (·.after moves)).held = pool.held := rfl
  refine moveRule hheld ?_
  intro other hother
  exact Pool.state_set_of_ne hother _

end Template

end ScriptFuzz
