import ScriptFuzz.Template.Basic

/-!
# Templates under construction
-/

namespace ScriptFuzz

/-- A template to which items are added at the end, and the pool that its mutators go to. -/
structure TemplateBuilder where
  /-- The mutators of all templates. -/
  pool : Pool := {}
  /-- The items so far. -/
  items : Array Item := #[]
deriving Inhabited

namespace TemplateBuilder

/-- Adds an item. -/
def push (b : TemplateBuilder) (item : Item) : TemplateBuilder :=
  { b with items := b.items.push item }

/-- Adds a mutator to the pool and an item that stands for it. -/
def pushMutator (b : TemplateBuilder) (m : Mutator) : MutatorId × TemplateBuilder :=
  let (id, pool) := b.pool.add m
  (id, { pool, items := b.items.push (.mutator id) })

/-- The template; its scalars are big-endian. -/
def template (b : TemplateBuilder) : Template := { items := b.items.toList }

end TemplateBuilder

/-- The scalar of a given width with the low bits of a value. -/
def Width.scalar (width : Width) (bits : UInt64) : Item :=
  match width with
  | .one => .byte bits.toUInt8
  | .two => .word bits.toUInt16
  | .three => .word24 (bits.toUInt32 % 0x1000000)
  | .four => .dword bits.toUInt32
  | .eight => .qword bits

end ScriptFuzz
