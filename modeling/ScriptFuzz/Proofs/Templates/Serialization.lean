import Mathlib.Data.List.Forall2
import ScriptFuzz.Template.Basic

/-!
# What templates are serialized to

Writing a template fails exactly if a mutator that it reaches is held elsewhere. If it does not
fail, the serialization is that of the items, one behind the other.

- `Item.Reaches`, `Template.Reaches`: the mutators of a template, and those of the templates it
  refers to.
- `Item.encoding`, `Template.encoding`: the bytes if no mutator were held.
- `Template.encoding_congr`: the bytes depend on the mutators that are reached.
- `Item.Amounts`: the bytes of an item, where those of a template that is referred to are what that
  template alone is serialized to.
- `Item.write_cases`: what writing an item does to a buffer, by recursion on the item.
- `Template.write_append`: what writing a template does to any buffer.
-/

namespace ScriptFuzz

/-! ## Bytes -/

mutual

/-- The bytes of an item, in the given byte order. -/
def Item.encoding (pool : Pool) (order : ByteOrder) : Item → Bytes
  | .byte v => [v]
  | .word v => order.encode 2 v.toUInt64
  | .word24 v => order.encode 3 v.toUInt64
  | .dword v => order.encode 4 v.toUInt64
  | .qword v => order.encode 8 v
  | .buffer bytes => bytes
  | .evaluator m => m.bytes order
  | .mutator id => (pool.state id).bytes order
  -- a template that is referred to keeps its own order
  | .reference items order => Item.encodings pool order items

/-- The bytes of items, one behind the other. -/
def Item.encodings (pool : Pool) (order : ByteOrder) : List Item → Bytes
  | [] => []
  | item :: items => item.encoding pool order ++ Item.encodings pool order items

end

theorem Item.encodings_eq_flatten (pool : Pool) (order : ByteOrder) (items : List Item) :
    Item.encodings pool order items = (items.map (Item.encoding pool order)).flatten := by
  induction items with
  | nil => rfl
  | cons item items ih => rw [encodings, ih, List.map_cons, List.flatten_cons]

theorem Item.encodings_append (pool : Pool) (order : ByteOrder) (xs ys : List Item) :
    Item.encodings pool order (xs ++ ys) =
      Item.encodings pool order xs ++ Item.encodings pool order ys := by
  simp only [encodings_eq_flatten, List.map_append, List.flatten_append]

/-- The bytes of a template. -/
def Template.encoding (pool : Pool) (t : Template) : Bytes := Item.encodings pool t.order t.items

/-- The bytes of an item of a template whose integers are written in the given order. Those of a
template that is referred to are what that template alone is serialized to. -/
inductive Item.Amounts (pool : Pool) (order : ByteOrder) : Item → Bytes → Prop
  | byte (v : UInt8) : Amounts pool order (.byte v) [v]
  | word (v : UInt16) : Amounts pool order (.word v) (order.encode 2 v.toUInt64)
  | word24 (v : UInt32) : Amounts pool order (.word24 v) (order.encode 3 v.toUInt64)
  | dword (v : UInt32) : Amounts pool order (.dword v) (order.encode 4 v.toUInt64)
  | qword (v : UInt64) : Amounts pool order (.qword v) (order.encode 8 v)
  | buffer (bytes : Bytes) : Amounts pool order (.buffer bytes) bytes
  | evaluator (e : Evaluator) : Amounts pool order (.evaluator e) (e.bytes order)
  | mutator (id : MutatorId) : Amounts pool order (.mutator id) ((pool.state id).bytes order)
  | reference {items : List Item} {own : ByteOrder} {bytes : Bytes}
      (h : Template.generate pool { items, order := own } = .ok bytes) :
      Amounts pool order (.reference items own) bytes

/-! ## Mutators -/

/-- An item reaches a mutator if it stands for it, or refers to a template with an item that reaches
it. -/
inductive Item.Reaches (id : MutatorId) : Item → Prop
  | mutator : Reaches id (.mutator id)
  | reference {items : List Item} {order : ByteOrder} {item : Item} (hmem : item ∈ items)
      (h : Reaches id item) : Reaches id (.reference items order)

/-- A template reaches its own mutators, and those that a template it refers to reaches. -/
def Template.Reaches (t : Template) (id : MutatorId) : Prop := ∃ item ∈ t.items, item.Reaches id

/-- A mutator that some items reach is held elsewhere. -/
def Pool.Blocks (pool : Pool) (items : List Item) : Prop :=
  ∃ id, pool.isHeld id ∧ ∃ item ∈ items, item.Reaches id

variable {pool : Pool}

/-- The mutators of a template are the items that stand for one. -/
theorem Template.mem_mutators {t : Template} {id : MutatorId} :
    id ∈ t.mutators ↔ .mutator id ∈ t.items := by
  rw [mutators, List.mem_filterMap]
  constructor
  · rintro ⟨item, hitem, h⟩
    cases item <;> first | cases h; exact hitem | cases h
  · intro h
    exact ⟨_, h, rfl⟩

theorem Pool.not_blocks_nil : ¬pool.Blocks [] := by
  rintro ⟨id, -, item, hmem, -⟩
  cases hmem

theorem Pool.blocks_cons {item : Item} {items : List Item} :
    pool.Blocks (item :: items) ↔ pool.Blocks [item] ∨ pool.Blocks items := by
  simp only [Blocks, List.mem_cons, List.not_mem_nil, or_false, or_and_right, exists_or,
    and_or_left, exists_eq_left]

theorem Pool.blocks_congr {pool' : Pool} (h : pool'.held = pool.held) (items : List Item) :
    pool'.Blocks items ↔ pool.Blocks items := by
  unfold Blocks isHeld
  rw [h]

theorem Pool.blocks_append {xs ys : List Item} :
    pool.Blocks (xs ++ ys) ↔ pool.Blocks xs ∨ pool.Blocks ys := by
  simp only [Blocks, List.mem_append, or_and_right, exists_or, and_or_left]

/-- Where nothing blocks a row of items, nothing blocks one of them. -/
theorem Pool.not_blocks_of_mem {items : List Item} (h : ¬pool.Blocks items) {item : Item}
    (hitem : item ∈ items) : ¬pool.Blocks [item] := by
  rintro ⟨id, hheld, item', hmem, hreach⟩
  obtain rfl := List.mem_singleton.1 hmem
  exact h ⟨id, hheld, item', hitem, hreach⟩

theorem Pool.blocks_mutator {id : MutatorId} : pool.Blocks [.mutator id] ↔ pool.isHeld id := by
  constructor
  · rintro ⟨id', hheld, item, hmem, hreach⟩
    obtain rfl := List.mem_singleton.1 hmem
    cases hreach
    exact hheld
  · intro hheld
    exact ⟨id, hheld, _, List.mem_singleton_self _, .mutator⟩

theorem Pool.blocks_reference {items : List Item} {order : ByteOrder} :
    pool.Blocks [.reference items order] ↔ pool.Blocks items := by
  constructor
  · rintro ⟨id, hheld, item, hmem, hreach⟩
    obtain rfl := List.mem_singleton.1 hmem
    cases hreach with
    | reference hmem hreach => exact ⟨id, hheld, _, hmem, hreach⟩
  · rintro ⟨id, hheld, item, hmem, hreach⟩
    exact ⟨id, hheld, _, List.mem_singleton_self _, .reference hmem hreach⟩

theorem Pool.not_blocks_of_plain {item : Item} (hmutator : ∀ id, item ≠ .mutator id)
    (hreference : ∀ items order, item ≠ .reference items order) : ¬pool.Blocks [item] := by
  rintro ⟨id, -, item', hmem, hreach⟩
  obtain rfl := List.mem_singleton.1 hmem
  cases hreach with
  | mutator => exact hmutator _ rfl
  | reference => exact hreference _ _ rfl

/-- A template whose items nothing blocks has its own mutators at hand. -/
theorem Template.isHeld_of_mem {t : Template} (h : ¬pool.Blocks t.items) {id : MutatorId}
    (hid : id ∈ t.mutators) : pool.isHeld id = false := by
  refine Bool.eq_false_iff.2 fun hheld => h ?_
  exact ⟨id, hheld, .mutator id, mem_mutators.1 hid, .mutator⟩

/-- Nothing blocks where nobody holds a mutator. -/
theorem Pool.not_blocks (h : pool.held = []) (items : List Item) : ¬pool.Blocks items := by
  rintro ⟨id, hheld, -⟩
  rw [isHeld, h] at hheld
  cases hheld

mutual

/-- The bytes of an item depend on the mutators that it reaches, and on no other ones. -/
theorem Item.encoding_congr {pool' : Pool} (order : ByteOrder) (item : Item)
    (h : ∀ id, item.Reaches id → pool.state id = pool'.state id) :
    item.encoding pool order = item.encoding pool' order := by
  cases item with
  | mutator id => rw [encoding, encoding, h id .mutator]
  | reference items own =>
    rw [encoding, encoding]
    exact Item.encodings_congr own items fun id item hmem hreach => h id (.reference hmem hreach)
  | _ => rfl

/-- The bytes of items depend on the mutators that they reach, and on no other ones. -/
theorem Item.encodings_congr {pool' : Pool} (order : ByteOrder) (items : List Item)
    (h : ∀ id, ∀ item ∈ items, item.Reaches id → pool.state id = pool'.state id) :
    Item.encodings pool order items = Item.encodings pool' order items := by
  cases items with
  | nil => rfl
  | cons item items =>
    have hfirst := Item.encoding_congr order item fun id => h id item List.mem_cons_self
    have hrest := Item.encodings_congr order items fun id item hmem =>
      h id item (List.mem_cons_of_mem _ hmem)
    rw [encodings, encodings, hfirst, hrest]

end

/-- The bytes of a template depend on the mutators that it reaches, and on no other ones. -/
theorem Template.encoding_congr {pool' : Pool} {t : Template}
    (h : ∀ id, t.Reaches id → pool.state id = pool'.state id) :
    t.encoding pool = t.encoding pool' :=
  Item.encodings_congr t.order t.items fun id item hmem hreach => h id ⟨item, hmem, hreach⟩

/-! ## Buffers -/

theorem Buffer.append_append (b : Buffer) (bytes more : Bytes) :
    (b.append bytes).append more = b.append (bytes ++ more) := by
  have hdata : b.data ++ bytes ++ more = b.data ++ (bytes ++ more) := Array.ext' (by simp)
  rw [append, append, append, hdata]

theorem Buffer.append_nil (b : Buffer) : b.append [] = b := by
  rw [append, Array.appendList_nil]

theorem Buffer.push_eq_append (b : Buffer) (byte : UInt8) : b.push byte = b.append [byte] := by
  simp [push, append]

/-- What is appended in another order stays, and the order before is in force again. -/
theorem Buffer.inOrder_ok {order : ByteOrder} {writer : EStateM TemplateError Buffer Unit}
    {bytes : Bytes} (b : Buffer)
    (h : writer (b.setOrder order) = .ok () ((b.setOrder order).append bytes)) :
    Buffer.inOrder order writer b = .ok () (b.append bytes) := by
  rw [inOrder, h]
  rfl

theorem Buffer.inOrder_error {order : ByteOrder} {writer : EStateM TemplateError Buffer Unit}
    {bytes : Bytes} {e : TemplateError} (b : Buffer)
    (h : writer (b.setOrder order) = .error e ((b.setOrder order).append bytes)) :
    Buffer.inOrder order writer b = .error e (b.append bytes) := by
  rw [inOrder, h]
  rfl

/-! ## Writing -/

/-- A writer appends `full` in every buffer with the given order; or, if something blocks it, it
fails behind some bytes, which are the same for every such buffer. -/
def Appends (blocked : Prop) (order : ByteOrder) (full : Bytes)
    (writer : EStateM TemplateError Buffer Unit) : Prop :=
  (¬blocked ∧ ∀ b, b.order = order → writer b = .ok () (b.append full)) ∨
    (blocked ∧ ∃ bytes, ∀ b, b.order = order → writer b = .error .mutatorBusy (b.append bytes))

theorem Appends.congr {blocked blocked' : Prop} {order : ByteOrder} {full : Bytes}
    {writer : EStateM TemplateError Buffer Unit} (h : Appends blocked order full writer)
    (hb : blocked ↔ blocked') : Appends blocked' order full writer := by
  rwa [← propext hb]

/-- One writer behind another. -/
theorem Appends.bind {blocked blocked' : Prop} {order : ByteOrder} {full more : Bytes}
    {writer writer' : EStateM TemplateError Buffer Unit} (h : Appends blocked order full writer)
    (h' : Appends blocked' order more writer') :
    Appends (blocked ∨ blocked') order (full ++ more) (writer >>= fun _ => writer') := by
  rcases h with ⟨hfree, hok⟩ | ⟨hheld, bytes, herror⟩
  · rcases h' with ⟨hfree', hok'⟩ | ⟨hheld', bytes', herror'⟩
    · refine .inl ⟨not_or.2 ⟨hfree, hfree'⟩, ?_⟩
      intro b hb
      rw [← Buffer.append_append, ← hok' (b.append full) hb]
      show EStateM.bind writer (fun _ => writer') b = _
      rw [EStateM.bind, hok b hb]
    · refine .inr ⟨.inr hheld', full ++ bytes', ?_⟩
      intro b hb
      rw [← Buffer.append_append, ← herror' (b.append full) hb]
      show EStateM.bind writer (fun _ => writer') b = _
      rw [EStateM.bind, hok b hb]
  -- the second writer is not reached
  · refine .inr ⟨.inl hheld, bytes, ?_⟩
    intro b hb
    show EStateM.bind writer (fun _ => writer') b = _
    rw [EStateM.bind, herror b hb]

/-- A writer in an order of its own does the same to every buffer. -/
theorem Appends.inOrder {blocked : Prop} {own : ByteOrder} {full : Bytes}
    {writer : EStateM TemplateError Buffer Unit} (h : Appends blocked own full writer) :
    (¬blocked ∧ ∀ b, Buffer.inOrder own writer b = .ok () (b.append full)) ∨
      (blocked ∧ ∃ bytes, ∀ b,
        Buffer.inOrder own writer b = .error .mutatorBusy (b.append bytes)) := by
  rcases h with ⟨hfree, hok⟩ | ⟨hheld, bytes, herror⟩
  · exact .inl ⟨hfree, fun b => Buffer.inOrder_ok b (hok _ rfl)⟩
  · exact .inr ⟨hheld, bytes, fun b => Buffer.inOrder_error b (herror _ rfl)⟩

mutual

/-- Writing an item appends its bytes, unless a mutator that it reaches is held. -/
theorem Item.write_cases (pool : Pool) (order : ByteOrder) (item : Item) :
    Appends (pool.Blocks [item]) order (item.encoding pool order) (item.write pool) := by
  have hplain : ∀ item : Item, (∀ id, item ≠ .mutator id) →
      (∀ items order, item ≠ .reference items order) →
      (∀ b : Buffer, b.order = order →
        item.write pool b = .ok () (b.append (item.encoding pool order))) →
      Appends (pool.Blocks [item]) order (item.encoding pool order) (item.write pool) :=
    fun item hm hr hok => .inl ⟨Pool.not_blocks_of_plain hm hr, hok⟩
  cases item with
  | byte v =>
    refine hplain _ (by simp) (by simp) ?_
    intro b hb
    rw [encoding, ← Buffer.push_eq_append]
    rfl
  | mutator id =>
    refine Appends.congr ?_ Pool.blocks_mutator.symm
    cases hheld : pool.isHeld id with
    | false =>
      refine .inl ⟨Bool.false_ne_true, ?_⟩
      rintro b rfl
      rw [encoding, write, Pool.free?, hheld]
      rfl
    | true =>
      refine .inr ⟨rfl, [], ?_⟩
      intro b _
      rw [write, Pool.free?, hheld, Buffer.append_nil]
      rfl
  | reference items own =>
    refine Appends.congr ?_ Pool.blocks_reference.symm
    rw [encoding, write]
    rcases (Item.writeAll_cases pool own items).inOrder with ⟨hfree, hok⟩ | ⟨hheld, bytes, herror⟩
    · exact .inl ⟨hfree, fun b _ => hok b⟩
    · exact .inr ⟨hheld, bytes, fun b _ => herror b⟩
  | _ =>
    refine hplain _ (by simp) (by simp) ?_
    rintro b rfl
    rfl

/-- Writing items appends their bytes, unless a mutator that they reach is held. -/
theorem Item.writeAll_cases (pool : Pool) (order : ByteOrder) (items : List Item) :
    Appends (pool.Blocks items) order (Item.encodings pool order items)
      (Item.writeAll pool items) := by
  cases items with
  | nil =>
    refine .inl ⟨Pool.not_blocks_nil, ?_⟩
    intro b _
    rw [encodings, Buffer.append_nil]
    rfl
  | cons item items =>
    rw [writeAll, encodings]
    refine Appends.congr ?_ Pool.blocks_cons.symm
    exact (Item.write_cases pool order item).bind (Item.writeAll_cases pool order items)

end

namespace Template

/-- Writing a template does the same to every buffer. -/
theorem write_cases (pool : Pool) (t : Template) :
    (¬pool.Blocks t.items ∧ ∀ b, t.write pool b = .ok () (b.append (t.encoding pool))) ∨
      (pool.Blocks t.items ∧ ∃ bytes, ∀ b,
        t.write pool b = .error .mutatorBusy (b.append bytes)) :=
  (Item.writeAll_cases pool t.order t.items).inOrder

/-- A template that reaches no mutator that is held has a serialization. -/
theorem generate_eq_encoding {t : Template} (h : ¬pool.Blocks t.items) :
    t.generate pool = .ok (t.encoding pool) := by
  rcases t.write_cases pool with ⟨-, hok⟩ | ⟨hheld, -⟩
  · rw [generate, hok]
    dsimp only
    rw [Buffer.bytes_append, Buffer.bytes_empty, List.nil_append]
  · exact absurd hheld h

/-- A template that reaches a mutator that is held has no serialization. -/
theorem generate_of_blocked {t : Template} (h : pool.Blocks t.items) :
    t.generate pool = .error .mutatorBusy := by
  rcases t.write_cases pool with ⟨hfree, -⟩ | ⟨-, bytes, herror⟩
  · exact absurd h hfree
  · rw [generate, herror]

/-- A template whose mutators nobody holds has a serialization. -/
theorem generate_eq (h : pool.held = []) (t : Template) :
    t.generate pool = .ok (t.encoding pool) :=
  generate_eq_encoding (Pool.not_blocks h t.items)

end Template

/-- The bytes of an item that reaches no mutator that is held are what it amounts to. -/
theorem Item.amounts_encoding (order : ByteOrder) {item : Item} (h : ¬pool.Blocks [item]) :
    item.Amounts pool order (item.encoding pool order) := by
  cases item with
  | reference items own =>
    rw [encoding]
    exact .reference (Template.generate_eq_encoding (mt Pool.blocks_reference.2 h))
  | byte | word | word24 | dword | qword | buffer | evaluator | mutator =>
    rw [encoding]
    constructor

theorem Item.exists_amounts (order : ByteOrder) {items : List Item} (h : ¬pool.Blocks items) :
    ∃ pieces, List.Forall₂ (Item.Amounts pool order) items pieces ∧
      Item.encodings pool order items = pieces.flatten := by
  refine ⟨_, ?_, Item.encodings_eq_flatten pool order items⟩
  rw [List.forall₂_map_right_iff, List.forall₂_same]
  intro item hitem
  exact item.amounts_encoding order (Pool.not_blocks_of_mem h hitem)

/-- Writing a template does the same to every buffer: it appends the same bytes, whatever the order
and the contents of the buffer, and the order is in force again afterwards. It fails exactly if a
mutator that the template reaches is held; otherwise the bytes are those of the items, one behind
the other. -/
theorem Template.write_append (pool : Pool) (t : Template) :
    ∃ bytes, ∀ b : Buffer, ∃ b' : Buffer, b'.bytes = b.bytes ++ bytes ∧ b'.order = b.order ∧
      ((t.write pool b = .error .mutatorBusy b' ∧ ∃ id, t.Reaches id ∧ pool.isHeld id) ∨
        (t.write pool b = .ok () b' ∧ (¬∃ id, t.Reaches id ∧ pool.isHeld id) ∧
          ∃ pieces, List.Forall₂ (Item.Amounts pool t.order) t.items pieces ∧
            bytes = pieces.flatten)) := by
  have hblocks : pool.Blocks t.items ↔ ∃ id, t.Reaches id ∧ pool.isHeld id :=
    exists_congr fun _ => and_comm
  rw [← hblocks]
  rcases t.write_cases pool with ⟨hfree, hok⟩ | ⟨hheld, bytes, herror⟩
  · refine ⟨t.encoding pool, ?_⟩
    intro b
    refine ⟨b.append (t.encoding pool), b.bytes_append _, rfl, .inr ⟨hok b, hfree, ?_⟩⟩
    exact Item.exists_amounts t.order hfree
  · refine ⟨bytes, ?_⟩
    intro b
    exact ⟨b.append bytes, b.bytes_append _, rfl, .inl ⟨herror b, hheld⟩⟩

end ScriptFuzz
