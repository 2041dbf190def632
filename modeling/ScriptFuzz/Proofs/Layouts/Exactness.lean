import Mathlib.Data.List.Induction
import ScriptFuzz.Channel.Layout
import ScriptFuzz.Proofs.Channel.Sources

/-!
# Layouts read exactly what their fields ask for

A message is cut into slices, one for each field: an integer has the bytes of its width, and a
field with a length elsewhere has as many as an earlier integer says. A read succeeds just if the
bytes that are left begin with such slices. It takes these and no more, and captures a value for
each. A read that fails has captured the slices before the field at which it fails, and nothing
else.

- `Field.Needs`: the number of bytes that a field takes behind given fields and their slices.
- `Layout.Cut`: the slices of a message.
- `Layout.readFields_of_cut`, `Layout.readFields_cases`: a read from bytes that begin with a
  message, and any read.
- `Layout.read_exact`: what a read comes to, whatever was read before with the same layout.
-/

namespace ScriptFuzz

open LawfulSource

/-! ## Slices -/

namespace Field

/-- A field takes that many bytes, where `before` are the fields before it and `slices` the bytes
that these took. A length is that of an integer among the fields before. -/
inductive Needs (order : ByteOrder) (before : List Field) (slices : List Bytes) :
    Field → Nat → Prop
  | scalar (width : Width) : Needs order before slices (.scalar width) width.bytes
  | bytes (length : Nat) : Needs order before slices (.bytes length) length
  | counted {i max : Nat} {width : Width} {counter : Bytes}
      (hfield : before[i]? = some (.scalar width)) (hslice : slices[i]? = some counter)
      (hmax : (order.decode counter).toNat ≤ max) :
      Needs order before slices (.counted i max) (order.decode counter).toNat

/-- What is captured of the bytes that a field takes. -/
def capture (order : ByteOrder) : Field → Bytes → FieldValue
  | .scalar _, slice => .unsigned (order.decode slice)
  | .bytes _, slice | .counted _ _, slice => .bytes slice

end Field

namespace Layout

/-- The slices that fields take of a message, one after the other. -/
inductive Cut (order : ByteOrder) : List Field → List Bytes → Prop
  | nil : Cut order [] []
  | concat {fields : List Field} {slices : List Bytes} {field : Field} {slice : Bytes}
      (h : Cut order fields slices) (hneeds : field.Needs order fields slices slice.length) :
      Cut order (fields ++ [field]) (slices ++ [slice])

theorem Cut.length_eq {order : ByteOrder} {fields : List Field} {slices : List Bytes}
    (h : Cut order fields slices) : slices.length = fields.length := by
  induction h with
  | nil => rfl
  | concat _ _ ih => rw [List.length_append, List.length_append, ih]; rfl

/-- What is captured of the slices of a message. -/
def captures (order : ByteOrder) (fields : List Field) (slices : List Bytes) : List FieldValue :=
  List.zipWith (Field.capture order) fields slices

variable {order : ByteOrder} {fields : List Field} {slices : List Bytes} {field : Field}
  {slice : Bytes}

theorem captures_concat (h : slices.length = fields.length) :
    captures order (fields ++ [field]) (slices ++ [slice]) =
      captures order fields slices ++ [field.capture order slice] :=
  List.zipWith_append h.symm

/-- An integer was captured where there is an integer among the fields, and nowhere else. -/
theorem getElem?_captures {i : Nat} {n : UInt64} :
    (captures order fields slices)[i]? = some (.unsigned n) ↔
      ∃ width counter, fields[i]? = some (.scalar width) ∧ slices[i]? = some counter ∧
        n = order.decode counter := by
  rw [captures, List.getElem?_zipWith']
  constructor
  · intro h
    cases hfield : fields[i]? with
    | none => simp [hfield] at h
    | some field =>
      cases hslice : slices[i]? with
      | none => simp [hfield, hslice] at h
      | some slice =>
        rw [hfield, hslice] at h
        cases field with
        | scalar width =>
          obtain rfl : order.decode slice = n := by simpa [Field.capture] using h
          exact ⟨width, slice, rfl, rfl, rfl⟩
        | bytes length => simp [Field.capture] at h
        | counted j max => simp [Field.capture] at h
  · rintro ⟨width, counter, hfield, hslice, rfl⟩
    rw [hfield, hslice]
    rfl

/-! ## The order of the fields -/

variable {σ : Type} [Source σ]

theorem read_eq (l : Layout) (s : σ) :
    l.read s = ({ l with captured := (readFields #[] s l.fields.toList).1 },
      (readFields #[] s l.fields.toList).2) :=
  rfl

/-- The last field is read when the others were. -/
theorem readFields_concat (captured : Array FieldValue) (s : σ) (fields : List Field)
    (field : Field) :
    readFields captured s (fields ++ [field]) =
      match readFields captured s fields with
      | (captured, .ok () s) =>
        match readField captured field s with
        | .ok value s => (captured.push value, .ok () s)
        | .error e s => (captured, .error e s)
      | (captured, .error e s) => (captured, .error e s) := by
  induction fields generalizing captured s with
  | nil =>
    rw [List.nil_append, readFields, readFields]
    dsimp only
    cases readField captured field s <;> rfl
  | cons first fields ih =>
    rw [List.cons_append, readFields, readFields]
    cases readField captured first s with
    | ok value s => exact ih (captured.push value) s
    | error e s => rfl

/-! ## One field -/

variable [BoundedSource σ]

/-- A field that needs a number of bytes takes these, if they are there. -/
theorem readField_of_needs {s : σ} {rest : Bytes}
    (hneeds : field.Needs (Source.readOrder s) fields slices slice.length)
    (h : unread s = slice ++ rest) :
    ∃ s', readField (captures (Source.readOrder s) fields slices).toArray field s =
        .ok (field.capture (Source.readOrder s) slice) s' ∧ unread s' = rest ∧
      Source.readOrder s' = Source.readOrder s := by
  obtain ⟨s', hreceive, hrest, horder⟩ := receive_append h
  refine ⟨s', ?_, hrest, horder⟩
  -- the field asks for as many bytes as the slice has
  generalize hlength : slice.length = n at hneeds hreceive
  cases hneeds with
  | scalar width =>
    show EStateM.bind (EStateM.bind (Source.receive width.bytes) _) _ s = _
    rw [EStateM.bind, EStateM.bind, hreceive, Field.capture, ← horder]
    rfl
  | bytes =>
    show EStateM.bind (Source.receive n) _ s = _
    rw [EStateM.bind, hreceive]
    rfl
  | @counted i max width counter hfield hslice hmax =>
    have hcaptured : (captures (Source.readOrder s) fields slices).toArray[i]? =
        some (.unsigned ((Source.readOrder s).decode counter)) := by
      rw [List.getElem?_toArray]
      exact getElem?_captures.2 ⟨width, counter, hfield, hslice, rfl⟩
    rw [readField, hcaptured]
    dsimp only
    rw [if_neg (Nat.not_lt.2 hmax)]
    show EStateM.bind (Source.receive _) _ s = _
    rw [EStateM.bind, hreceive]
    rfl

/-- If the bytes that a field needs are not there, or it is not known how many it needs, the read
fails. -/
theorem readField_of_not_needs {s : σ}
    (h : ∀ n, field.Needs (Source.readOrder s) fields slices n → (unread s).length < n) :
    ∃ e s', readField (captures (Source.readOrder s) fields slices).toArray field s =
      .error e s' := by
  cases field with
  | scalar width =>
    obtain ⟨e, s', hreceive⟩ := BoundedSource.receive_short (h _ (.scalar width))
    refine ⟨e, s', ?_⟩
    show EStateM.bind (Source.readUInt width.bytes) _ s = _
    rw [EStateM.bind, Source.readUInt_of_error hreceive]
  | bytes length =>
    obtain ⟨e, s', hreceive⟩ := BoundedSource.receive_short (h _ (.bytes length))
    refine ⟨e, s', ?_⟩
    show EStateM.bind (Source.receive length) _ s = _
    rw [EStateM.bind, hreceive]
  | counted i max =>
    rw [readField]
    cases hcaptured : (captures (Source.readOrder s) fields slices).toArray[i]? with
    | none => exact ⟨_, s, rfl⟩
    | some value =>
      cases value with
      | bytes value => exact ⟨_, s, rfl⟩
      | unsigned n =>
        dsimp only
        by_cases hmax : max < n.toNat
        · rw [if_pos hmax]
          exact ⟨_, s, rfl⟩
        · rw [if_neg hmax]
          rw [List.getElem?_toArray] at hcaptured
          obtain ⟨width, counter, hfield, hslice, rfl⟩ := getElem?_captures.1 hcaptured
          -- the length is that of an earlier integer, so only the bytes can be missing
          have hshort := h _ (.counted hfield hslice (Nat.le_of_not_lt hmax))
          obtain ⟨e, s', hreceive⟩ := BoundedSource.receive_short hshort
          refine ⟨e, s', ?_⟩
          show EStateM.bind (Source.receive _) _ s = _
          rw [EStateM.bind, hreceive]

/-- A field takes the bytes that it needs, or the read fails. -/
theorem readField_cases (s : σ) (fields : List Field) (slices : List Bytes) (field : Field) :
    (∃ slice s', readField (captures (Source.readOrder s) fields slices).toArray field s =
        .ok (field.capture (Source.readOrder s) slice) s' ∧
      field.Needs (Source.readOrder s) fields slices slice.length ∧
      unread s = slice ++ unread s' ∧ Source.readOrder s' = Source.readOrder s) ∨
    (∀ n, field.Needs (Source.readOrder s) fields slices n → (unread s).length < n) ∧
      ∃ e s', readField (captures (Source.readOrder s) fields slices).toArray field s =
        .error e s' := by
  by_cases h : ∃ n, field.Needs (Source.readOrder s) fields slices n ∧ n ≤ (unread s).length
  · obtain ⟨n, hneeds, hle⟩ := h
    have hlength : ((unread s).take n).length = n := List.length_take_of_le hle
    rw [← hlength] at hneeds
    have hsplit : unread s = (unread s).take n ++ (unread s).drop n :=
      (List.take_append_drop n (unread s)).symm
    obtain ⟨s', hread, hrest, horder⟩ := readField_of_needs hneeds hsplit
    exact .inl ⟨_, s', hread, hneeds, hrest ▸ hsplit, horder⟩
  · right
    have hshort : ∀ n, field.Needs (Source.readOrder s) fields slices n →
        (unread s).length < n := by
      intro n hneeds
      refine Nat.lt_of_not_le ?_
      intro hle
      exact h ⟨n, hneeds, hle⟩
    exact ⟨hshort, readField_of_not_needs hshort⟩

/-! ## All fields -/

/-- From bytes that begin with a message the message is read. -/
theorem readFields_of_cut {s : σ} {rest : Bytes} (h : Cut (Source.readOrder s) fields slices)
    (hunread : unread s = slices.flatten ++ rest) :
    ∃ s', readFields #[] s fields =
        ((captures (Source.readOrder s) fields slices).toArray, .ok () s') ∧
      unread s' = rest ∧ Source.readOrder s' = Source.readOrder s := by
  induction h generalizing rest with
  | nil => exact ⟨s, rfl, hunread, rfl⟩
  | @concat fields slices field slice hcut hneeds ih =>
    rw [List.flatten_concat, List.append_assoc] at hunread
    obtain ⟨s₁, hfields, hrest₁, horder₁⟩ := ih hunread
    rw [← horder₁] at hneeds
    obtain ⟨s', hfield, hrest, horder⟩ := readField_of_needs hneeds hrest₁
    refine ⟨s', ?_, hrest, horder.trans horder₁⟩
    rw [horder₁] at hfield
    rw [readFields_concat, hfields]
    dsimp only
    rw [hfield, captures_concat hcut.length_eq]
    simp

/-- A read takes a message that is there, or it fails behind the slices of some of the fields. -/
theorem readFields_cases (s : σ) (fields : List Field) :
    (∃ slices s', readFields #[] s fields =
        ((captures (Source.readOrder s) fields slices).toArray, .ok () s') ∧
      Cut (Source.readOrder s) fields slices ∧ unread s = slices.flatten ++ unread s' ∧
      Source.readOrder s' = Source.readOrder s) ∨
    ∃ before field behind slices rest e s', fields = before ++ field :: behind ∧
      readFields #[] s fields =
        ((captures (Source.readOrder s) before slices).toArray, .error e s') ∧
      Cut (Source.readOrder s) before slices ∧ unread s = slices.flatten ++ rest ∧
      ∀ n, field.Needs (Source.readOrder s) before slices n → rest.length < n := by
  induction fields using List.reverseRecOn with
  | nil => exact .inl ⟨[], s, rfl, .nil, rfl, rfl⟩
  | append_singleton fields field ih =>
    rw [readFields_concat]
    rcases ih with ⟨slices, s₁, hfields, hcut, hunread, horder₁⟩ |
      ⟨before, stop, behind, slices, rest, e, s', rfl, hfields, hcut, hunread, hshort⟩
    · rw [hfields]
      dsimp only
      have hfield := readField_cases s₁ fields slices field
      rw [horder₁] at hfield
      rcases hfield with ⟨slice, s', hfield, hneeds, hrest, horder⟩ | ⟨hshort, e, s', hfield⟩
      · left
        refine ⟨slices ++ [slice], s', ?_, hcut.concat hneeds, ?_, horder⟩
        · rw [hfield, captures_concat hcut.length_eq]
          simp
        · rw [hunread, hrest, List.flatten_concat, List.append_assoc]
      · right
        refine ⟨fields, field, [], slices, unread s₁, e, s', rfl, ?_, hcut, hunread, hshort⟩
        rw [hfield]
    · right
      refine ⟨before, stop, behind ++ [field], slices, rest, e, s', by simp, ?_, hcut, hunread,
        hshort⟩
      rw [hfields]

/-! ## Reads -/

/-- A read succeeds just if the bytes that are left begin with a message: with slices for all fields
one after the other, where each length is that of an integer before it, no more than allowed. Then
it takes these bytes, and has captured the value of each slice. If it fails, it does so at a field
that needs more bytes than there are, or has no length, and it has captured the values of the slices
before this field. What was captured before is forgotten in any case. -/
theorem read_exact (l : Layout) (s : σ) :
    (∀ earlier : Array FieldValue, { l with captured := earlier : Layout }.read s = l.read s) ∧
    ((∃ s', (l.read s).2 = .ok () s') ↔
      ∃ slices rest, Cut (Source.readOrder s) l.fields.toList slices ∧
        unread s = slices.flatten ++ rest) ∧
    (∀ s', (l.read s).2 = .ok () s' → ∃ slices,
      Cut (Source.readOrder s) l.fields.toList slices ∧
      unread s = slices.flatten ++ unread s' ∧
      ∀ i, (l.read s).1.get? i = (captures (Source.readOrder s) l.fields.toList slices)[i]?) ∧
    ∀ e s', (l.read s).2 = .error e s' → ∃ before field behind slices rest,
      l.fields.toList = before ++ field :: behind ∧
      Cut (Source.readOrder s) before slices ∧ unread s = slices.flatten ++ rest ∧
      (∀ n, field.Needs (Source.readOrder s) before slices n → rest.length < n) ∧
      ∀ i, (l.read s).1.get? i = (captures (Source.readOrder s) before slices)[i]? := by
  refine ⟨fun _ => rfl, ?_, ?_, ?_⟩
  · constructor
    · rintro ⟨s', hread⟩
      rcases readFields_cases s l.fields.toList with
        ⟨slices, s', -, hcut, hunread, -⟩ | ⟨_, _, _, _, _, e, s'', -, hfields, -⟩
      · exact ⟨slices, _, hcut, hunread⟩
      · rw [read_eq, hfields] at hread
        cases hread
    · rintro ⟨slices, rest, hcut, hunread⟩
      obtain ⟨s', hfields, -, -⟩ := readFields_of_cut hcut hunread
      exact ⟨s', by rw [read_eq, hfields]⟩
  · intro s' hread
    rcases readFields_cases s l.fields.toList with
      ⟨slices, s₁, hfields, hcut, hunread, -⟩ | ⟨_, _, _, _, _, e, s'', -, hfields, -⟩
    · rw [read_eq, hfields] at hread
      cases hread
      refine ⟨slices, hcut, hunread, ?_⟩
      intro i
      rw [read_eq, hfields, get?, List.getElem?_toArray]
    · rw [read_eq, hfields] at hread
      cases hread
  · intro e s' hread
    rcases readFields_cases s l.fields.toList with
      ⟨slices, s₁, hfields, -, -, -⟩ |
      ⟨before, field, behind, slices, rest, e₁, s₁, hsplit, hfields, hcut, hunread, hshort⟩
    · rw [read_eq, hfields] at hread
      cases hread
    · refine ⟨before, field, behind, slices, rest, hsplit, hcut, hunread, hshort, ?_⟩
      intro i
      rw [read_eq, hfields, get?, List.getElem?_toArray]

/-- A length that is read only later is unknown, also if an earlier read has captured it. -/
example :
    let l : Layout := ⟨#[.counted 1 4, .scalar .one], #[.bytes [], .unsigned 2]⟩
    (l.read ({ data := [7, 8, 9] } : ArraySource)).1.get? 0 = none := by
  decide

end Layout

end ScriptFuzz
