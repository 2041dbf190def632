import ScriptFuzz.Channel.Layout
import ScriptFuzz.Proofs.Channel.Sources
import ScriptFuzz.Proofs.Expressions.RoundTrip
import ScriptFuzz.Proofs.Expressions.Tags
import ScriptFuzz.Proofs.Templates.Serialization
import ScriptFuzz.Template.Lowering

/-!
# Layouts read back what templates write

An expression without fuzzed sequences, references and properties is at once a template and a
layout. It stands for cells one after the other, each an integer or a vector of zeros; the template
has an item for each of them and the layout a field, and the field reads what the item writes.

- `Expr.Fixed`: the expressions that stand for a message of a fixed size.
- `Expr.fieldValues`: the values of its integers and vectors.
- `Cell`: what an item and a field have in common.
- `Expr.read_generate`: the layout of an expression reads the bytes of its template, and no more,
  and captures the values of the expression.
-/

namespace ScriptFuzz

open LawfulSource

/-! ## Expressions of a fixed size -/

namespace Expr

/-- Expressions that stand for a message of a fixed size: integers, vectors of a size that fits 64
bits, and sequences of such. -/
inductive Fixed : Expr → Prop
  | type (tag : Tag) (t : WireType) : Fixed (.type tag t)
  | constant (tag : Tag) (t : WireType) (value : Int) : Fixed (.constant tag t value)
  | vector (tag : Tag) (t : WireType) {count : UInt64}
      (hsize : count.toNat * t.width.bytes < 2 ^ (64 : Nat)) : Fixed (.vector tag t count count)
  | sequence (tag : Tag) {items : List Expr} (hi : ∀ e ∈ items, Fixed e) :
      Fixed (.sequence tag items)

mutual

/-- What a message has for the integers and vectors of an expression. An integer that is left open
is zero, as are the bytes of a vector; of a constant there are as many bits as its type has. -/
def fieldValues : Expr → List FieldValue
  | .type _ _ => [.unsigned 0]
  | .constant _ t value =>
    [.unsigned (UInt64.ofNat ((constantBits value).toNat % 2 ^ t.width.bits))]
  | .vector _ t count _ => [.bytes (List.replicate (count.toNat * t.width.bytes) 0)]
  | .sequence _ items => fieldValuesAll items
  | .reference _ _ | .property _ _ _ | .fuzz _ _ => []

/-- What a message has for the integers and vectors of expressions, one after the other. -/
def fieldValuesAll : List Expr → List FieldValue
  | [] => []
  | e :: es => e.fieldValues ++ fieldValuesAll es

end

end Expr

/-! ## Cells -/

/-- A stretch of a message. -/
inductive Cell where
  /-- The low bytes of an integer. -/
  | scalar (width : Width) (bits : UInt64)
  /-- A number of zeros. -/
  | zeros (length : Nat)

namespace Cell

/-- The item that writes a cell. -/
def item : Cell → Item
  | scalar width bits => width.scalar bits
  | zeros length => .buffer (List.replicate length 0)

/-- The field that reads a cell. -/
def field : Cell → Field
  | scalar width _ => .scalar width
  | zeros length => .bytes length

/-- The bytes of a cell. -/
def bytes (order : ByteOrder) : Cell → Bytes
  | scalar width bits => order.encode width.bytes bits
  | zeros length => List.replicate length 0

/-- What is read for a cell. -/
def value : Cell → FieldValue
  | scalar width bits => .unsigned (UInt64.ofNat (bits.toNat % 2 ^ width.bits))
  | zeros length => .bytes (List.replicate length 0)

end Cell

/-- A scalar of three bytes is kept in four, and a byte is written without regard to the order; all
scalars come to the low bytes of their bits. -/
theorem Width.encoding_scalar (pool : Pool) (order : ByteOrder) (width : Width) (bits : UInt64) :
    (width.scalar bits).encoding pool order = order.encode width.bytes bits := by
  cases width with
  | one =>
    show [bits.toUInt8] = order.encode 1 bits
    cases order <;> rfl
  | two =>
    show order.encode 2 bits.toUInt16.toUInt64 = order.encode 2 bits
    refine order.encode_congr ?_
    simp
  | three =>
    show order.encode 3 (bits.toUInt32 % 0x1000000).toUInt64 = order.encode 3 bits
    refine order.encode_congr ?_
    simp
  | four =>
    show order.encode 4 bits.toUInt32.toUInt64 = order.encode 4 bits
    refine order.encode_congr ?_
    simp
  | eight => rfl

namespace Cell

theorem encoding_item (pool : Pool) (order : ByteOrder) (c : Cell) :
    c.item.encoding pool order = c.bytes order := by
  cases c with
  | scalar width bits => exact width.encoding_scalar pool order bits
  | zeros length => rfl

theorem encodings_items (pool : Pool) (order : ByteOrder) (cells : List Cell) :
    Item.encodings pool order (cells.map item) = cells.flatMap (bytes order) := by
  induction cells with
  | nil => rfl
  | cons c cells ih =>
    rw [List.map_cons, Item.encodings, ih, encoding_item, List.flatMap_cons]

/-- Cells have no mutators, and so nothing can be in the way of writing them. -/
theorem not_blocks_items (pool : Pool) (cells : List Cell) : ¬pool.Blocks (cells.map item) := by
  rintro ⟨id, -, i, hi, hreach⟩
  obtain ⟨c, -, rfl⟩ := List.mem_map.1 hi
  cases c with
  | zeros length => cases hreach
  | scalar width bits => cases width <;> cases hreach

variable {σ : Type} [Source σ] [LawfulSource σ] {s : σ} {rest : Bytes}

/-- The field of a cell reads what its item writes, and captures the value. -/
theorem readField_bytes (captured : Array FieldValue) (c : Cell)
    (h : unread s = c.bytes (Source.readOrder s) ++ rest) :
    ∃ s', Layout.readField captured c.field s = .ok c.value s' ∧ unread s' = rest ∧
      Source.readOrder s' = Source.readOrder s := by
  cases c with
  | scalar width bits =>
    obtain ⟨s', hread, hrest, horder⟩ := Source.readUInt_encode h
    refine ⟨s', ?_, hrest, horder⟩
    show EStateM.bind (Source.readUInt width.bytes) _ s = _
    rw [EStateM.bind, hread]
    rfl
  | zeros length =>
    obtain ⟨s', hread, hrest, horder⟩ := receive_append h
    have hlength : (bytes (Source.readOrder s) (zeros length)).length = length :=
      List.length_replicate
    rw [hlength] at hread
    refine ⟨s', ?_, hrest, horder⟩
    show EStateM.bind (Source.receive length) _ s = _
    rw [EStateM.bind, hread]
    rfl

/-- The fields of cells, one behind the other, read what the items write. -/
theorem readFields_bytes (captured : Array FieldValue) (cells : List Cell)
    (h : unread s = cells.flatMap (bytes (Source.readOrder s)) ++ rest) :
    ∃ s', Layout.readFields captured s (cells.map field) =
        (captured ++ (cells.map value).toArray, .ok () s') ∧ unread s' = rest := by
  induction cells generalizing s captured with
  | nil => exact ⟨s, by simp [Layout.readFields], h⟩
  | cons c cells ih =>
    rw [List.flatMap_cons, List.append_assoc] at h
    obtain ⟨s₁, hfirst, hunread, horder⟩ := readField_bytes captured c h
    rw [← horder] at hunread
    obtain ⟨s', hfields, hrest⟩ := ih (captured.push c.value) hunread
    refine ⟨s', ?_, hrest⟩
    rw [List.map_cons, Layout.readFields, hfirst]
    dsimp only
    rw [hfields]
    simp

/-- The layout of cells reads exactly their bytes and captures their values. -/
theorem read_bytes (cells : List Cell)
    (h : unread s = cells.flatMap (bytes (Source.readOrder s)) ++ rest) :
    ∃ s', Layout.read { fields := (cells.map field).toArray } s =
        ({ fields := (cells.map field).toArray, captured := (cells.map value).toArray },
          .ok () s') ∧ unread s' = rest := by
  obtain ⟨s', hread, hrest⟩ := readFields_bytes #[] cells h
  refine ⟨s', ?_, hrest⟩
  rw [Layout.read]
  dsimp only
  rw [hread, Array.empty_append]

end Cell

/-! ## The cells of an expression -/

theorem Lowering.items_push (s : Lowering) (item : Item) :
    (s.push item).builder.items = s.builder.items ++ #[item] :=
  Array.push_eq_append

namespace Expr

mutual

/-- The cells that an expression stands for. -/
def cells : Expr → List Cell
  | .type _ t => [.scalar t.width 0]
  | .constant _ t value => [.scalar t.width (constantBits value)]
  | .vector _ t count _ => [.zeros (count.toNat * t.width.bytes)]
  | .sequence _ items => cellsAll items
  | .reference _ _ | .property _ _ _ | .fuzz _ _ => []

/-- The cells that expressions stand for, one after the other. -/
def cellsAll : List Expr → List Cell
  | [] => []
  | e :: es => e.cells ++ cellsAll es

end

mutual

theorem map_value_cells : ∀ e : Expr, e.cells.map Cell.value = e.fieldValues
  | .type _ _ | .constant _ _ _ | .vector _ _ _ _ | .reference _ _ | .property _ _ _
  | .fuzz _ _ => by simp [cells, fieldValues, Cell.value]
  | .sequence _ items => map_value_cellsAll items

theorem map_value_cellsAll : ∀ es : List Expr, (cellsAll es).map Cell.value = fieldValuesAll es
  | [] => rfl
  | e :: es => by
    rw [cellsAll, fieldValuesAll, List.map_append, map_value_cells e, map_value_cellsAll es]

end

/-- The layout of an expression has the fields of its cells. -/
theorem Fixed.scheduleExpr_eq {e : Expr} (h : e.Fixed) (fields : Array Field) :
    Layout.scheduleExpr fields e = .ok (fields ++ (e.cells.map Cell.field).toArray) := by
  induction h generalizing fields with
  | type tag t => simp [Layout.scheduleExpr, cells, Cell.field]
  | constant tag t value => simp [Layout.scheduleExpr, cells, Cell.field]
  | vector tag t hsize =>
    simp [Layout.scheduleExpr, cells, Cell.field, Nat.mod_eq_of_lt hsize]
  | @sequence tag items hi ih =>
    rw [Layout.scheduleExpr, cells]
    clear hi
    induction items generalizing fields with
    | nil => simp [Layout.scheduleAll, cellsAll]
    | cons e es ihs =>
      obtain ⟨he, hes⟩ := List.forall_mem_cons.1 ih
      rw [Layout.scheduleAll, he fields, cellsAll]
      dsimp only
      rw [ihs hes]
      simp

/-- The template of an expression has the items of its cells. What lies outside of a fuzzed sequence
needs no mutator. -/
theorem Fixed.exists_lower {e : Expr} (h : e.Fixed) (declared : Declared) {n m : Nat}
    (ht : e.Tagged false n m) (s : Lowering) :
    ∃ l, e.lower declared s = .ok l ∧ l.builder.pool = s.builder.pool ∧
      l.builder.items = s.builder.items ++ (e.cells.map Cell.item).toArray := by
  induction h generalizing n m s with
  | type tag t =>
    cases ht with | type =>
    exact ⟨s.push (t.width.scalar 0), rfl, rfl, s.items_push _⟩
  | constant tag t value =>
    cases ht with | constant =>
    exact ⟨s.push (t.width.scalar (constantBits value)), rfl, rfl, s.items_push _⟩
  | @vector tag t count hsize =>
    cases ht with | vector =>
    refine ⟨s.push (.buffer (List.replicate (count.toNat * t.width.bytes) 0)), ?_, rfl,
      s.items_push _⟩
    rw [lower, if_neg Bool.false_ne_true, if_pos rfl, Nat.mod_eq_of_lt hsize]
  | @sequence tag items hi ih =>
    cases ht with | sequence htags =>
    rw [lower, cells]
    clear hi
    induction items generalizing n s with
    | nil => exact ⟨s, rfl, rfl, by simp [cellsAll]⟩
    | cons e es ihs =>
      cases htags with | cons hte htes =>
      obtain ⟨he, hes⟩ := List.forall_mem_cons.1 ih
      obtain ⟨l₁, hl₁, hpool₁, hitems₁⟩ := he hte s
      obtain ⟨l, hl, hpool, hitems⟩ := ihs hes l₁ htes
      refine ⟨l, ?_, hpool.trans hpool₁, ?_⟩
      · rw [lowerAll, hl₁]
        exact hl
      · rw [hitems, hitems₁, cellsAll]
        simp

/-- The layout of an expression reads back what its template writes. Of an expression that was
parsed, stands outside of fuzzed sequences and has a fixed size, both can be made; and in whichever
order the template writes, the layout takes exactly its bytes from a source of that order, whatever
follows them, and captures the values of the expression. -/
theorem read_generate {text : String} {fin : Position} {n : Nat} {e : Expr} {after : Cursor}
    {shorter : after.rest.length < (Cursor.ofSource text n).rest.length}
    (he : Expr.parse fin (Cursor.ofSource text n) = .parsed e after shorter)
    (hfixed : e.Fixed) (declared : Declared) (pool : Pool) :
    ∃ layout l, Layout.ofExpr e = .ok layout ∧
      e.lower declared { builder := { pool } } = .ok l ∧
      l.builder.template.order = .bigEndian ∧ layout.size = e.fieldValues.length ∧
      ∀ order : ByteOrder, ∃ bytes,
        Template.generate l.builder.pool { l.builder.template with order } = .ok bytes ∧
        ∀ {σ : Type} [Source σ] [LawfulSource σ] (s : σ) (rest : Bytes),
          unread s = bytes ++ rest → Source.readOrder s = order →
          ∃ layout' s', layout.read s = (layout', .ok () s') ∧ unread s' = rest ∧
            ∀ i, layout'.get? i = e.fieldValues[i]? := by
  obtain ⟨l, hl, -, hitems⟩ :=
    hfixed.exists_lower declared (tagged_of_parse he) { builder := { pool } }
  have hlayout : Layout.ofExpr e = .ok { fields := (e.cells.map Cell.field).toArray } := by
    rw [Layout.ofExpr, hfixed.scheduleExpr_eq]
    simp
  refine ⟨_, l, hlayout, hl, rfl, ?_, ?_⟩
  · rw [← map_value_cells]
    simp [Layout.size]
  intro order
  have htemplate : { l.builder.template with order } =
      ({ items := e.cells.map Cell.item, order } : Template) := by
    simp [TemplateBuilder.template, hitems]
  refine ⟨e.cells.flatMap (Cell.bytes order), ?_, ?_⟩
  · rw [htemplate, Template.generate_eq_encoding (Cell.not_blocks_items _ _)]
    exact congrArg Except.ok (Cell.encodings_items _ order e.cells)
  · rintro σ _ _ s rest hs rfl
    obtain ⟨s', hread, hrest⟩ := Cell.read_bytes e.cells hs
    refine ⟨_, s', hread, hrest, ?_⟩
    intro i
    rw [← map_value_cells, Layout.get?]
    simp

/-- Whether an expression has a fixed size does not depend on its tags. -/
theorem Fixed.of_bare {inFuzz : Bool} {e : Expr} (hwf : e.WellFormed inFuzz)
    (h : e.bare.Fixed) : e.Fixed := by
  induction hwf with
  | type tag t => exact .type tag t
  | constant tag hv => exact .constant tag _ _
  | reference => cases h
  | property => cases h
  | vector tag t hle =>
    cases h with | vector _ _ hsize =>
    exact .vector tag t hsize
  | sequence tag hne _ ih =>
    cases h with | sequence _ hi =>
    rw [bareAll_eq_map] at hi
    exact .sequence tag fun e he => ih e he (hi _ (List.mem_map_of_mem he))
  | fuzz => cases h

mutual

theorem fieldValues_bare : ∀ e : Expr, e.bare.fieldValues = e.fieldValues
  | .type _ _ | .constant _ _ _ | .reference _ _ | .property _ _ _ | .vector _ _ _ _
  | .fuzz _ _ => rfl
  | .sequence _ items => fieldValuesAll_bare items

theorem fieldValuesAll_bare : ∀ es : List Expr, fieldValuesAll (bareAll es) = fieldValuesAll es
  | [] => rfl
  | e :: es => by
    rw [bareAll, fieldValuesAll, fieldValuesAll, fieldValues_bare e, fieldValuesAll_bare es]

end

theorem parse_pair :
    ∃ e after shorter,
      Expr.parse {} (Cursor.ofSource "[s24(-2),u8<2>]" 0) = .parsed e after shorter ∧
        e.bare = .sequence default
          [.constant default ⟨.three, true⟩ (-2), .vector default ⟨.one, false⟩ 2 2] := by
  have hconstant : Written
      [.keyword (.wire ⟨.three, true⟩), .mark .openParen, .mark .minus, .integer 2,
        .mark .closeParen] (.constant default ⟨.three, true⟩ (-2)) :=
    .constant default (.minus rfl 2)
  have hvector : Written
      [.keyword (.wire ⟨.one, false⟩), .mark .less, .integer 2, .mark .greater]
      (.vector default ⟨.one, false⟩ 2 2) :=
    .vector default _ 2
  have hw := @Expr.Written.sequence default [(_, _), (_, _)]
    (List.forall_mem_cons.2 ⟨hconstant, List.forall_mem_singleton.2 hvector⟩)
  have hwf : (Expr.sequence default
      [.constant default ⟨.three, true⟩ (-2), .vector default ⟨.one, false⟩ 2 2]).WellFormed
        false := by
    refine .sequence default (by simp) ?_
    intro e he
    rcases List.mem_pair.1 he with rfl | rfl
    · exact .constant default (by decide)
    · exact .vector default _ (UInt64.le_refl 2)
  obtain ⟨e, after, shorter, he, hbare, -⟩ :=
    (Expr.meets_parse {} hw hwf rfl Expr.ends_nil
      ((Cursor.lexemes_ofSource "[s24(-2),u8<2>]" 0).trans (by decide +kernel))).exists_parsed
  exact ⟨e, after, shorter, he, hbare⟩

/-- A negative integer of three bytes and a vector, with one more byte behind them. -/
theorem read_generate_pair :
    ∃ e after shorter layout l bytes layout' s',
      Expr.parse {} (Cursor.ofSource "[s24(-2),u8<2>]" 0) = .parsed e after shorter ∧
        Layout.ofExpr e = .ok layout ∧ e.lower [] {} = .ok l ∧
        l.builder.template.generate l.builder.pool = .ok bytes ∧
        layout.read ({ data := bytes ++ [7] } : ArraySource) = (layout', .ok () s') ∧
        s'.unread = [7] ∧ layout'.get? 0 = some (.unsigned 0xFFFFFE) ∧
        layout'.get? 1 = some (.bytes [0, 0]) := by
  obtain ⟨e, after, shorter, he, hbare⟩ := parse_pair
  have hfixed : e.Fixed := by
    refine .of_bare (Expr.printed_of_parse he).1 ?_
    rw [hbare]
    refine .sequence default ?_
    intro e he
    rcases List.mem_pair.1 he with rfl | rfl
    · exact .constant default _ _
    · exact .vector default _ (by decide)
  have hvalues : e.fieldValues = [.unsigned 0xFFFFFE, .bytes [0, 0]] := by
    rw [← fieldValues_bare, hbare]
    decide
  obtain ⟨layout, l, hlayout, hl, -, -, hread⟩ := read_generate he hfixed [] {}
  obtain ⟨bytes, hbytes, hread⟩ := hread .bigEndian
  obtain ⟨layout', s', hread, hrest, hget⟩ :=
    hread ({ data := bytes ++ [7] } : ArraySource) [7] rfl rfl
  refine ⟨e, after, shorter, layout, l, bytes, layout', s', he, hlayout, hl, hbytes, hread, hrest,
    ?_, ?_⟩
  · rw [hget, hvalues]
    rfl
  · rw [hget, hvalues]
    rfl

end Expr

end ScriptFuzz
