import ScriptFuzz.Proofs.Layouts.Exactness

/-!
# What a layout shows after some reads

A layout shows values of the last read only, whichever sources the reads were from. If that read
succeeded, then it shows a value for each field. If it failed, then the values that were captured
before the failing field are still shown.

- `AnySource`, `Layout.readAll`: one read after another, each from a source of its own kind.
- `Layout.StopsAt`: a read fails at a field.
- `Layout.read_cases`: what one read comes to.
- `Layout.shows_last_read`: what is shown after some reads.
-/

namespace ScriptFuzz

/-- A source of any kind, as it stands. -/
structure AnySource where
  {σ : Type}
  [source : Source σ]
  state : σ

namespace Layout

attribute [instance] AnySource.source

/-- The layout behind a read from each of some sources. -/
def readAll (l : Layout) (sources : List AnySource) : Layout :=
  sources.foldl (fun l s => (l.read s.state).1) l

variable {σ : Type} [Source σ] {fields : Array Field} {captured : Array FieldValue}
  {e : ChannelError} {s' : σ}

/-- A read from `s` fails at field `k`: the fields before it are read, which captures `captured`,
and then the field is not. -/
def StopsAt (fields : Array Field) (s : σ) (k : Nat) (captured : Array FieldValue)
    (e : ChannelError) (s' : σ) : Prop :=
  ∃ s₁ field, readFields #[] s (fields.toList.take k) = (captured, .ok () s₁) ∧
    fields[k]? = some field ∧ readField captured field s₁ = .error e s'

/-! ## One read -/

/-- Fields are read one after the other, all of them or up to one that is not. -/
theorem readFields_stops (s : σ) (fields : List Field) :
    (∃ captured s', readFields #[] s fields = (captured, .ok () s') ∧
      captured.size = fields.length) ∨
    ∃ k captured e s', readFields #[] s fields = (captured, .error e s') ∧
      captured.size = k ∧ StopsAt fields.toArray s k captured e s' := by
  induction fields using List.reverseRecOn with
  | nil => exact .inl ⟨#[], s, rfl, rfl⟩
  | append_singleton fields field ih =>
    rw [readFields_concat]
    rcases ih with ⟨captured, s₁, hfields, hsize⟩ |
      ⟨k, captured, e, s', hfields, hsize, s₁, stop, hbefore, hstop, hfield⟩
    · rw [hfields]
      dsimp only
      cases hfield : readField captured field s₁ with
      | ok value s' =>
        refine .inl ⟨_, s', rfl, ?_⟩
        rw [Array.size_push, hsize, List.length_append, List.length_singleton]
      | error e s' =>
        refine .inr ⟨fields.length, captured, e, s', rfl, hsize, s₁, field, ?_, ?_, hfield⟩
        · rw [List.take_left, hfields]
        · rw [List.getElem?_toArray, List.getElem?_concat_length]
    · rw [hfields]
      rw [List.getElem?_toArray] at hstop
      have hk : k < fields.length := (List.getElem?_eq_some_iff.1 hstop).1
      refine .inr ⟨k, captured, e, s', rfl, hsize, s₁, stop, ?_, ?_, hfield⟩
      · rw [List.take_append_of_le_length (Nat.le_of_lt hk)]
        exact hbefore
      · rw [List.getElem?_toArray, List.getElem?_append_left hk, hstop]

/-- A read captures the values of all fields, or those of the fields before the one that it fails
at. -/
theorem read_cases (l : Layout) (s : σ) :
    (∃ captured s', l.read s = (⟨l.fields, captured⟩, .ok () s') ∧ captured.size = l.size) ∨
    ∃ k captured e s', l.read s = (⟨l.fields, captured⟩, .error e s') ∧ captured.size = k ∧
      StopsAt l.fields s k captured e s' := by
  rcases readFields_stops s l.fields.toList with
    ⟨captured, s', hread, hsize⟩ | ⟨k, captured, e, s', hread, hsize, hstops⟩
  · exact .inl ⟨captured, s', by rw [read_eq, hread], hsize⟩
  · exact .inr ⟨k, captured, e, s', by rw [read_eq, hread], hsize, hstops⟩

theorem isSome_get? {l : Layout} {i : Nat} : (l.get? i).isSome ↔ i < l.captured.size := by
  simp [get?]

/-! ## All reads -/

/-- Reads leave the fields. -/
theorem fields_readAll (l : Layout) (sources : List AnySource) :
    (l.readAll sources).fields = l.fields := by
  induction sources generalizing l with
  | nil => rfl
  | cons s sources ih => exact ih _

/-- After some reads, a layout shows what its last read alone would show. Before the first read it
shows nothing. After a successful read it shows a value for each field. A failed read stops at some
field; then exactly the values that it captured of the fields before are shown, and nothing is if it
stopped at the first one. -/
theorem shows_last_read (fields : Array Field) :
    (∀ i, (readAll { fields } []).get? i = none) ∧
    ∀ (earlier : List AnySource) (last : AnySource),
      let l := readAll { fields } (earlier ++ [last])
      let result := ((readAll { fields } earlier).read last.state).2
      (l, result) = read { fields } last.state ∧
      (∀ s', result = .ok () s' → ∀ i, (l.get? i).isSome ↔ i < fields.size) ∧
      ∀ e s', result = .error e s' → ∃ k captured,
        StopsAt fields last.state k captured e s' ∧ (∀ i, l.get? i = captured[i]?) ∧
          ∀ i, (l.get? i).isSome ↔ i < k := by
  refine ⟨fun i => rfl, ?_⟩
  intro earlier last
  have hlast : readAll { fields } (earlier ++ [last]) =
      ((readAll { fields } earlier).read last.state).1 := by
    rw [readAll, List.foldl_append]
    rfl
  have hfields : (readAll { fields } earlier).fields = fields := fields_readAll _ _
  have hcases := read_cases (readAll { fields } earlier) last.state
  dsimp only
  rw [hlast]
  rw [size, hfields] at hcases
  refine ⟨?_, ?_, ?_⟩
  · rw [read_eq, read_eq, hfields]
  · intro s' hok i
    rcases hcases with ⟨captured, s₁, hread, hsize⟩ | ⟨k, captured, e, s₁, hread, -, -⟩
    · rw [hread, isSome_get?, hsize]
    · rw [hread] at hok
      cases hok
  · intro e s' herror
    rcases hcases with ⟨captured, s₁, hread, -⟩ | ⟨k, captured, e', s₁, hread, hsize, hstops⟩
    · rw [hread] at herror
      cases herror
    · rw [hread] at herror ⊢
      cases herror
      refine ⟨k, captured, hstops, fun i => rfl, fun i => ?_⟩
      rw [isSome_get?, hsize]

/-- After a short read the integer in front is shown. -/
theorem shows_last_read_short :
    ∃ k captured,
      StopsAt #[.scalar .one, .scalar .two] ({ data := [5] } : ArraySource) k captured
          (.unexpectedEnd 2 0) { data := [5], offset := 1 } ∧
        captured[0]? = some (.unsigned 5) := by
  obtain ⟨-, hshows⟩ := shows_last_read #[.scalar .one, .scalar .two]
  obtain ⟨-, -, herror⟩ := hshows [⟨({ data := [1, 2, 3] } : ArraySource)⟩]
    ⟨({ data := [5] } : ArraySource)⟩
  obtain ⟨k, captured, hstops, hget, -⟩ :=
    herror (.unexpectedEnd 2 0) { data := [5], offset := 1 } rfl
  exact ⟨k, captured, hstops, (hget 0).symm⟩

/-- A layout shows the integer in front of a message that is too short, though the read failed. -/
theorem shows_failed_read :
    let l : Layout := { fields := #[.scalar .one, .scalar .two] }
    let s : ArraySource := { data := [5] }
    (l.read s).2 = .error (.unexpectedEnd 2 0) { data := [5], offset := 1 } ∧
      (l.read s).1.get? 0 = some (.unsigned 5) :=
  ⟨rfl, rfl⟩

end Layout

end ScriptFuzz
