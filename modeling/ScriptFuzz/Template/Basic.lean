import ScriptFuzz.Bytes.Buffer
import ScriptFuzz.Mutator.Pool

/-!
# Templates

A template is a list of items with a byte order, and it is serialized item by item. Scalars are
written in the order of the template that owns them; a reference writes the template it names in
that template's own order.

- `Item`: what a template consists of, among it values that write bytes of their own (`Evaluator`).
- `Template.place`: puts an item at the end or in the place of another one.
- `Template.write`: appends the serialization to a buffer and leaves the buffer's order as it was.
- `Template.generate`: the serialization alone.

A mutator that is held elsewhere cannot be written, and a template that reaches one has no
serialization (`TemplateError.mutatorBusy`).
-/

namespace ScriptFuzz

/-- Why a template cannot be changed, serialized or built. -/
inductive TemplateError where
  /-- There is no item at the position. -/
  | invalidPosition (position size : Nat)
  /-- A mutator that the template reaches is held elsewhere. -/
  | mutatorBusy
  /-- No template of that name is declared. -/
  | unknownReference (name : String)
  /-- Properties of declared values have no serialization. -/
  | propertyAccess (name property : String)
  /-- A vector of varying length is not inside a fuzzed sequence. -/
  | rangedVector (type : WireType) (lower upper : UInt64)
  /-- There is no counter of the type's width. -/
  | unfuzzableType (type : WireType)
deriving DecidableEq, Repr

namespace TemplateError

/-- The wording of the error. -/
def message : TemplateError → String
  | invalidPosition position size =>
    s!"item position {position} is out of range for a template of {size} item(s)"
  | mutatorBusy => "a mutator referenced by the template is being advanced"
  | unknownReference name => "unknown template $" ++ name
  | propertyAccess name property =>
    "property $" ++ name ++ "." ++ property ++ " cannot be serialized"
  | rangedVector type lower upper =>
    s!"{type.name}<{lower}-{upper}> is only allowed inside a fuzzed sequence"
  | unfuzzableType type => s!"{type.name} values cannot be fuzzed"

end TemplateError

/-- A value that writes bytes of its own. Writing does not change it. -/
structure Evaluator where
  /-- What it writes where integers are written in the given order. -/
  bytes : ByteOrder → Bytes
deriving Inhabited

instance : Repr Evaluator where
  reprPrec _ _ := "evaluator"

/-- A mutator, as far as it is written. -/
def Mutator.evaluator (m : Mutator) : Evaluator where
  bytes order := m.bytes order

instance : Coe Mutator Evaluator := ⟨Mutator.evaluator⟩

/-- One unit of a template. -/
inductive Item where
  | byte (value : UInt8)
  | word (value : UInt16)
  /-- The low 24 bits of a value. -/
  | word24 (value : UInt32)
  | dword (value : UInt32)
  | qword (value : UInt64)
  /-- Bytes that are written as they are. -/
  | buffer (bytes : Bytes)
  /-- A value that is written like a mutator and is not one of the template's mutators. -/
  | evaluator (value : Evaluator)
  /-- A mutator of the template. -/
  | mutator (id : MutatorId)
  /-- Another template, by its items and its byte order. -/
  | reference (items : List Item) (order : ByteOrder)
deriving Repr, Inhabited

/-- A list of items that is serialized as a whole. -/
structure Template where
  /-- The items in order. -/
  items : List Item := []
  /-- The order in which scalars are written. -/
  order : ByteOrder := .bigEndian
deriving Repr, Inhabited

mutual

/-- Writes one item in the order of the buffer. -/
def Item.write (pool : Pool) : Item → EStateM TemplateError Buffer Unit
  | .byte v => modify (·.push v)
  | .word v => modify (·.putUInt 2 v.toUInt64)
  | .word24 v => modify (·.putUInt 3 v.toUInt64)
  | .dword v => modify (·.putUInt 4 v.toUInt64)
  | .qword v => modify (·.putUInt 8 v)
  | .buffer bytes => modify (·.append bytes)
  | .evaluator m => modify fun b => b.append (m.bytes b.order)
  | .mutator id =>
    match pool.free? id with
    | some m => modify fun b => b.append (m.bytes b.order)
    | none => throw .mutatorBusy
  | .reference items order => Buffer.inOrder order (Item.writeAll pool items)

/-- Writes items one after the other, up to the first that cannot be written. -/
def Item.writeAll (pool : Pool) : List Item → EStateM TemplateError Buffer Unit
  | [] => pure ()
  | item :: items => do
    item.write pool
    Item.writeAll pool items

end

namespace Template

/-- The number of items. -/
def size (t : Template) : Nat := t.items.length

/-- Whether there are no items. -/
def isEmpty (t : Template) : Bool := t.items.isEmpty

/-- Puts an item at the end, or in the place of the item at a position; the answer is where the item
landed. -/
def place (t : Template) (item : Item) (position : Option Nat) :
    Except TemplateError (Nat × Template) :=
  match position with
  | none => .ok (t.size, { t with items := t.items ++ [item] })
  | some i =>
    if i < t.size then .ok (i, { t with items := t.items.set i item })
    else .error (.invalidPosition i t.size)

/-- The item that stands for the whole of a template. -/
def asItem (t : Template) : Item := .reference t.items t.order

/-- The mutators of the template in the order of its items. Those of a template it refers to belong
to that template. -/
def mutators (t : Template) : List MutatorId :=
  t.items.filterMap fun
    | .mutator id => some id
    | _ => none

/-- Appends the serialization to a buffer, whose own order is in force again afterwards. When an
item cannot be written, the items before it stay written. -/
def write (pool : Pool) (t : Template) : EStateM TemplateError Buffer Unit :=
  t.asItem.write pool

/-- The serialization of a template. -/
def generate (pool : Pool) (t : Template) : Except TemplateError Bytes :=
  match t.write pool (.empty t.order) with
  | .ok _ buffer => .ok buffer.bytes
  | .error e _ => .error e

end Template

end ScriptFuzz
