import ScriptFuzz.Proofs.Expressions.Grammar
import ScriptFuzz.Proofs.Language.Code
import ScriptFuzz.Proofs.Language.Rules
import ScriptFuzz.Template.Lowering

/-!
# Expressions as templates of scripts

The expressions that can also be written as a template of a script, and what they look like there.

- `Expr.Portable`: unsigned integers of one, two, four and eight bytes, vectors of them, references
  to declared templates, and sequences. Vectors of varying length lie inside fuzzed sequences; the
  size of the other ones fits 64 bits.
- `Expr.entries`: the template. Integers and vectors become scalars and arrays, a sequence becomes
  its parts, and a fuzzed sequence becomes a group in braces.
- `Expr.Portable.exists_written`, `Expr.Portable.valid_entries`: the template can be written, and
  keeps the rules of scripts.
-/

namespace ScriptFuzz

open Source

/-- Whether the script language has the type: it has no signed integers, and none of three bytes. -/
def WireType.Plain (t : WireType) : Prop := t.signed = false ∧ t.width ≠ .three

/-! ## The items of an expression -/

namespace Expr

mutual

/-- The items that an expression becomes where all of them are to be fuzzed. -/
def fields : Expr → List Source.Field
  | .type _ t => [.scalar t.width none]
  | .constant _ t value => [.scalar t.width (some (constantBits value))]
  | .reference _ name => [.reference name]
  | .property _ _ _ => []
  | .vector _ t lower upper => [.array t.width lower (if lower = upper then none else some upper)]
  | .sequence _ items => fieldsAll items
  | .fuzz _ items => fieldsAll items

/-- The items that expressions become, one after the other. -/
def fieldsAll : List Expr → List Source.Field
  | [] => []
  | e :: es => e.fields ++ fieldsAll es

end

mutual

/-- The template that an expression becomes. -/
def entries : Expr → List Entry
  | .sequence _ items => entriesAll items
  | .fuzz _ items => [.group (fieldsAll items)]
  | .type tag t => (Expr.type tag t).fields.map .field
  | .constant tag t value => (Expr.constant tag t value).fields.map .field
  | .reference tag name => (Expr.reference tag name).fields.map .field
  | .property tag name part => (Expr.property tag name part).fields.map .field
  | .vector tag t lower upper => (Expr.vector tag t lower upper).fields.map .field

/-- What expressions become, one after the other. -/
def entriesAll : List Expr → List Entry
  | [] => []
  | e :: es => e.entries ++ entriesAll es

end

theorem fieldsAll_eq (es : List Expr) : fieldsAll es = es.flatMap fields := by
  induction es with
  | nil => rfl
  | cons e es ih => rw [fieldsAll, ih, List.flatMap_cons]

theorem entriesAll_eq (es : List Expr) : entriesAll es = es.flatMap entries := by
  induction es with
  | nil => rfl
  | cons e es ih => rw [entriesAll, ih, List.flatMap_cons]

mutual

/-- What an expression becomes does not depend on its tags. -/
theorem fields_bare : ∀ e : Expr, e.bare.fields = e.fields
  | .type _ _ | .constant _ _ _ | .reference _ _ | .property _ _ _ | .vector _ _ _ _ => rfl
  | .sequence _ items | .fuzz _ items => fieldsAll_bare items

theorem fieldsAll_bare : ∀ es : List Expr, fieldsAll (bareAll es) = fieldsAll es
  | [] => rfl
  | e :: es => by rw [bareAll, fieldsAll, fieldsAll, fields_bare e, fieldsAll_bare es]

end

mutual

theorem entries_bare : ∀ e : Expr, e.bare.entries = e.entries
  | .type _ _ | .constant _ _ _ | .reference _ _ | .property _ _ _ | .vector _ _ _ _ => rfl
  | .sequence _ items => entriesAll_bare items
  | .fuzz _ items => by rw [bare, entries, entries, fieldsAll_bare]

theorem entriesAll_bare : ∀ es : List Expr, entriesAll (bareAll es) = entriesAll es
  | [] => rfl
  | e :: es => by rw [bareAll, entriesAll, entriesAll, entries_bare e, entriesAll_bare es]

end

/-- An expression that a template of a script can stand for; `inFuzz` says whether it lies inside a
fuzzed sequence. -/
inductive Portable (declared : Declared) : (inFuzz : Bool) → Expr → Prop
  | type {inFuzz : Bool} (tag : Tag) {t : WireType} (ht : t.Plain) :
      Portable declared inFuzz (.type tag t)
  | constant {inFuzz : Bool} (tag : Tag) {t : WireType} {value : Int} (ht : t.Plain)
      (hv : t.Holds value) : Portable declared inFuzz (.constant tag t value)
  | reference {inFuzz : Bool} (tag : Tag) {name : String} (hn : (declared.lookup name).isSome) :
      Portable declared inFuzz (.reference tag name)
  | vector {inFuzz : Bool} (tag : Tag) {t : WireType} {lower upper : UInt64} (ht : t.Plain)
      (hle : lower ≤ upper)
      (hfixed : inFuzz ∨ lower = upper ∧ lower.toNat * t.width.bytes < 2 ^ (64 : Nat)) :
      Portable declared inFuzz (.vector tag t lower upper)
  | sequence {inFuzz : Bool} (tag : Tag) {items : List Expr} (hne : items ≠ [])
      (hi : ∀ e ∈ items, Portable declared inFuzz e) :
    Portable declared inFuzz (.sequence tag items)
  | fuzz (tag : Tag) {items : List Expr} (hne : items ≠ [])
      (hi : ∀ e ∈ items, Portable declared true e) : Portable declared false (.fuzz tag items)

end Expr

/-! ## Items with their braces -/

/-- The items of what stands between two commas, and whether they stand in braces. -/
def Source.Entry.parts : Entry → List (Bool × Source.Field)
  | .field f => [(false, f)]
  | .group fs => fs.map (true, ·)

theorem Source.Entry.build_eq (known : List (String × Template)) (b : TemplateBuilder) (e : Entry) :
    e.build known b = e.parts.foldl (fun b p => p.2.build known p.1 b) b := by
  cases e with
  | field f => rfl
  | group fs => rw [build, parts, List.foldl_map]

theorem Source.Entry.valid_iff {names : Naming} {e : Entry} :
    e.Valid names ↔ ∀ p ∈ e.parts, p.2.Valid names p.1 := by
  cases e with
  | field f => simp [Valid, parts]
  | group fs => simp [Valid, parts]

namespace Expr

/-- The items that an expression becomes, and whether they stand in braces. -/
def parts : (inFuzz : Bool) → Expr → List (Bool × Source.Field)
  | true, e => e.fields.map (true, ·)
  | false, e => e.entries.flatMap Entry.parts

theorem parts_sequence (inFuzz : Bool) (tag : Tag) (items : List Expr) :
    (Expr.sequence tag items).parts inFuzz = items.flatMap (parts inFuzz) := by
  cases inFuzz with
  | true => rw [parts, fields, fieldsAll_eq, List.map_flatMap]; rfl
  | false => rw [parts, entries, entriesAll_eq, List.flatMap_assoc]; rfl

theorem parts_fuzz (tag : Tag) (items : List Expr) :
    (Expr.fuzz tag items).parts false = items.flatMap (parts true) := by
  rw [parts, entries, List.flatMap_singleton, Entry.parts, fieldsAll_eq, List.map_flatMap]
  rfl

/-- What is not a sequence becomes the same inside and outside of braces. -/
theorem parts_of_entries {e : Expr} (h : e.entries = e.fields.map .field) (inFuzz : Bool) :
    e.parts inFuzz = e.fields.map (inFuzz, ·) := by
  cases inFuzz with
  | true => rfl
  | false =>
    rw [parts, h, List.flatMap_map, List.map_eq_flatMap]
    rfl

variable {declared : Declared} {names : Naming} {inFuzz : Bool} {e : Expr}

/-! ## The rules of scripts -/

/-- The pattern of a constant of a plain type is the constant itself. -/
theorem toNat_constantBits {t : WireType} {value : Int} (ht : t.Plain) (hv : t.Holds value) :
    ((constantBits value).toNat : Int) = value ∧ (constantBits value).toNat ≤ t.width.max := by
  have hleast : t.least = 0 := by rw [WireType.least, ht.1]; rfl
  have hgreatest : t.greatest = t.width.max := by rw [WireType.greatest, ht.1]; rfl
  obtain ⟨hlow, hhigh⟩ := hv
  rw [hleast] at hlow
  rw [hgreatest] at hhigh
  have hmax := t.width.max_lt
  have hbits : (constantBits value).toNat = value.toNat := by
    rw [constantBits, UInt64.ofInt, UInt64.toNat_ofNat']
    omega
  rw [hbits]
  omega

theorem Portable.valid_parts (h : e.Portable declared inFuzz)
    (hnames : ∀ x, x ∈ names.templates ↔ (declared.lookup x).isSome) :
    ∀ p ∈ e.parts inFuzz, p.2.Valid names p.1 := by
  induction h with
  | @type inFuzz tag t ht =>
    rw [parts_of_entries rfl]
    simp [fields, Source.Field.Valid]
  | @constant inFuzz tag t value ht hv =>
    rw [parts_of_entries rfl]
    simpa [fields, Source.Field.Valid] using (toNat_constantBits ht hv).2
  | @reference inFuzz tag name hn =>
    rw [parts_of_entries rfl]
    simpa [fields, Source.Field.Valid, hnames] using hn
  | @vector inFuzz tag t lower upper ht hle hfixed =>
    have hvalid : Source.Field.Valid names inFuzz
        (.array t.width lower (if lower = upper then none else some upper)) := by
      rw [Source.Field.Valid]
      split
      · next heq => exact ⟨by simp, hfixed.imp_right (·.2)⟩
      · next hne =>
        have hf : inFuzz := hfixed.resolve_right fun h => hne h.1
        exact ⟨by simpa using ⟨hf, hle⟩, .inl hf⟩
    rw [parts_of_entries rfl]
    simpa [fields] using hvalid
  | sequence tag _ _ ih =>
    rw [parts_sequence]
    intro p hp
    obtain ⟨e, he, hp⟩ := List.mem_flatMap.1 hp
    exact ih e he p hp
  | fuzz tag _ _ ih =>
    rw [parts_fuzz]
    intro p hp
    obtain ⟨e, he, hp⟩ := List.mem_flatMap.1 hp
    exact ih e he p hp

/-- The template of a portable expression keeps the rules of scripts. -/
theorem Portable.valid_entries (h : e.Portable declared false)
    (hnames : ∀ x, x ∈ names.templates ↔ (declared.lookup x).isSome) :
    ∀ entry ∈ e.entries, entry.Valid names := by
  intro entry hentry
  refine Entry.valid_iff.2 ?_
  intro p hp
  exact h.valid_parts hnames p (List.mem_flatMap.2 ⟨entry, hentry, hp⟩)

/-! ## The grammar of scripts -/

/-- Pieces of text for things that can all be written. -/
theorem exists_pieces {α : Type} {P : List Lexeme → α → Prop} {as : List α}
    (h : ∀ a ∈ as, ∃ ts, P ts a) :
    ∃ pieces : List (List Lexeme × α), pieces.map (·.2) = as ∧ ∀ p ∈ pieces, P p.1 p.2 := by
  induction as with
  | nil => exact ⟨[], rfl, by simp⟩
  | cons a as ih =>
    obtain ⟨⟨ts, hts⟩, h⟩ := List.forall_mem_cons.1 h
    obtain ⟨pieces, rfl, hp⟩ := ih h
    exact ⟨(ts, a) :: pieces, rfl, List.forall_mem_cons.2 ⟨hts, hp⟩⟩

theorem written_flatMap {α : Type} {P : List Lexeme → α → Prop} {items : List Expr}
    {f : Expr → List α} (hne : items ≠ [])
    (h : ∀ e ∈ items, f e ≠ [] ∧ ∀ a ∈ f e, ∃ ts, P ts a) :
    items.flatMap f ≠ [] ∧ ∀ a ∈ items.flatMap f, ∃ ts, P ts a := by
  refine ⟨?_, ?_⟩
  · obtain ⟨e, items, rfl⟩ := List.exists_cons_of_ne_nil hne
    rw [List.flatMap_cons]
    exact List.append_ne_nil_of_left_ne_nil (h e List.mem_cons_self).1 _
  · intro a ha
    obtain ⟨e, he, ha⟩ := List.mem_flatMap.1 ha
    exact (h e he).2 a ha

/-- The plain types have keywords. -/
theorem exists_keyword {t : WireType} (ht : t.Plain) :
    ∃ k, Keyword.scalarWidth? k = some t.width := by
  obtain ⟨-, hw⟩ := ht
  cases h : t.width with
  | one => exact ⟨.byte, rfl⟩
  | two => exact ⟨.word, rfl⟩
  | three => exact absurd h hw
  | four => exact ⟨.dword, rfl⟩
  | eight => exact ⟨.qword, rfl⟩

theorem Portable.exists_written_fields (h : e.Portable declared inFuzz) :
    e.fields ≠ [] ∧ ∀ f ∈ e.fields, ∃ ts, f.Written ts := by
  induction h with
  | @type inFuzz tag t ht =>
    obtain ⟨k, hk⟩ := exists_keyword ht
    simpa [fields] using ⟨_, .scalar hk⟩
  | @constant inFuzz tag t value ht hv =>
    obtain ⟨k, hk⟩ := exists_keyword ht
    simpa [fields] using ⟨_, .value hk _⟩
  | @reference inFuzz tag name hn =>
    simpa [fields] using ⟨_, .reference (.plain name)⟩
  | @vector inFuzz tag t lower upper ht hle hfixed =>
    obtain ⟨k, hk⟩ := exists_keyword ht
    have hw : ∃ ts, Source.Field.Written ts
        (.array t.width lower (if lower = upper then none else some upper)) := by
      split
      · exact ⟨_, .array hk lower⟩
      · exact ⟨_, .range hk lower upper⟩
    simpa [fields] using hw
  | @sequence inFuzz tag items hne _ ih =>
    rw [fields, fieldsAll_eq]
    exact written_flatMap hne ih
  | @fuzz tag items hne _ ih =>
    rw [fields, fieldsAll_eq]
    exact written_flatMap hne ih

theorem Portable.exists_written_leaf (h : e.Portable declared inFuzz)
    (he : e.entries = e.fields.map .field) :
    e.entries ≠ [] ∧ ∀ entry ∈ e.entries, ∃ ts, entry.Written ts := by
  obtain ⟨hne, hw⟩ := h.exists_written_fields
  rw [he]
  refine ⟨by simpa using hne, List.forall_mem_map.2 ?_⟩
  intro f hf
  obtain ⟨ts, hts⟩ := hw f hf
  exact ⟨ts, .field hts⟩

theorem Portable.exists_written_entries (h : e.Portable declared inFuzz) :
    e.entries ≠ [] ∧ ∀ entry ∈ e.entries, ∃ ts, entry.Written ts := by
  induction h with
  | @type inFuzz tag t ht => exact (@type declared inFuzz tag t ht).exists_written_leaf rfl
  | @constant inFuzz tag t value ht hv =>
    exact (@constant declared inFuzz tag t value ht hv).exists_written_leaf rfl
  | @reference inFuzz tag name hn =>
    exact (@reference declared inFuzz tag name hn).exists_written_leaf rfl
  | @vector inFuzz tag t lower upper ht hle hfixed =>
    exact (@vector declared inFuzz tag t lower upper ht hle hfixed).exists_written_leaf rfl
  | @sequence inFuzz tag items hne _ ih =>
    rw [entries, entriesAll_eq]
    exact written_flatMap hne ih
  | @fuzz tag items hne hi _ =>
    obtain ⟨hfields, hw⟩ := written_flatMap hne fun e he => (hi e he).exists_written_fields
    obtain ⟨pieces, hpieces, hp⟩ := exists_pieces hw
    rw [entries, fieldsAll_eq, ← hpieces]
    refine ⟨by simp, ?_⟩
    intro entry hentry
    obtain rfl := List.mem_singleton.1 hentry
    exact ⟨_, .group (by rintro rfl; exact hfields hpieces.symm) hp⟩

/-- The template of a portable expression can be written. -/
theorem Portable.exists_written (h : e.Portable declared inFuzz) (x : String) :
    ∃ ts, Declaration.Written ts (.template x e.entries) := by
  obtain ⟨hne, hw⟩ := h.exists_written_entries
  obtain ⟨pieces, hpieces, hp⟩ := exists_pieces hw
  rw [← hpieces] at hne ⊢
  exact ⟨_, .template x (by simpa using hne) hp⟩

end Expr

end ScriptFuzz
