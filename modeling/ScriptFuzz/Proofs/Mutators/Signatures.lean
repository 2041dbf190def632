import Mathlib.Data.List.Nodup
import Mathlib.Data.Nat.ModEq
import ScriptFuzz.Proofs.Listing.Lines
import ScriptFuzz.Proofs.Mutators.Lifecycle

/-!
# Signatures tell values

A finding is reported under the signature of the mutator's state. The signature leaves out some of
the state and cuts off long strings, but what it says is enough: a mutator writes the same bytes in
all states of one signature, and it does not come to the same signature twice before it is finished.

- `Counter.describe_injective`, `Dictionary.describe_injective`, `FileWalk.describe_injective`,
  `LengthWalk.describe_injective`: what can be read off the signature of each kind.
- `Mutator.Akin`: mutators that differ in their place alone. Moves and resets change nothing else.
- `Mutator.describe_after_injective`, `Mutator.describe_counter_injective`: signatures on the way to
  the end, and those of a counter until it is back where it was, are distinct.
- `Mutator.SignatureRule`, `Mutator.signatureRule`: what signatures tell about the mutators that are
  made.
-/

namespace ScriptFuzz

/-! ## What can be read off a signature -/

/-- A number in a text ends where a mark stands that is no digit. -/
theorem eq_of_toString_append {n k : Nat} {mark : Char} {cs ds : List Char}
    (hmark : mark.isDigit = false)
    (h : (toString n).toList ++ mark :: cs = (toString k).toList ++ mark :: ds) : n = k := by
  have hnot : ∀ i : Nat, mark ∉ (toString i).toList := by
    intro i hmem
    rw [isDigit_of_mem_toString hmem] at hmark
    cases hmark
  have hdigits := (append_cons_inj_of_marked (hnot n) (hnot k) h).1
  exact Nat.repr_injective (String.toList_inj.1 hdigits)

/-- The signature of a counter tells its value. -/
theorem Counter.describe_injective {c : Counter} {n k : Nat}
    (h : describe { c with current := n } = describe { c with current := k }) : n = k := by
  have hvalue : toString n = toString k := (String.append_right_inj _).1 h
  exact Nat.repr_injective hvalue

/-- The signature of a dictionary tells the number of the string, whatever is left out of the string
itself. -/
theorem Dictionary.describe_injective {d : Dictionary} {i j : Nat}
    (h : describe { d with index := i } = describe { d with index := j }) : i = j := by
  have htext := String.toList_inj.2 h
  unfold describe at htext
  simp only [String.toList_append, List.append_assoc, List.append_cancel_left_eq] at htext
  have hslash : '/'.isDigit = false := by decide
  exact eq_of_toString_append hslash htext

/-- The signature of a walk through lengths tells the number of elements. -/
theorem LengthWalk.describe_injective {w : LengthWalk} {n k : Nat} {a b : Bool}
    (h : describe { w with count := n, done := a } = describe { w with count := k, done := b }) :
    n = k := by
  have htext := String.toList_inj.2 h
  unfold describe at htext
  simp only [String.toList_append, List.append_assoc, List.append_cancel_left_eq] at htext
  have hblank : ' '.isDigit = false := by decide
  exact eq_of_toString_append hblank htext

namespace FileWalk

/-- What the signature says behind the name of the file. -/
def placeText (phase : FilePhase) (offset : Nat) : String :=
  match phase with
  | .inverting => ", bitinverse, offset=" ++ toString offset
  | .removing => ", byteremoval, offset=" ++ toString offset
  | .done => ", done"

theorem describe_eq (w : FileWalk) :
    w.describe = "file: " ++ Text.quoted w.name ++ placeText w.phase w.offset := by
  obtain ⟨name, data, phase, offset⟩ := w
  cases phase with
  | inverting => exact String.append_assoc
  | removing => exact String.append_assoc
  | done => rfl

theorem placeText_injective {p q : FilePhase} {i j : Nat} (h : placeText p i = placeText q j) :
    p = q ∧ (p ≠ .done → i = j) := by
  have hoffset : ∀ front : String, front ++ toString i = front ++ toString j → i = j :=
    fun front h => Nat.repr_injective ((String.append_right_inj front).1 h)
  -- the passes have different names
  have htext := String.toList_inj.2 h
  unfold placeText at h htext
  cases p with
  | inverting =>
    cases q with
    | inverting => exact ⟨rfl, fun _ => hoffset _ h⟩
    | removing => simp at htext
    | done => simp at htext
  | removing =>
    cases q with
    | inverting => simp at htext
    | removing => exact ⟨rfl, fun _ => hoffset _ h⟩
    | done => simp at htext
  | done =>
    cases q with
    | inverting => simp at htext
    | removing => simp at htext
    | done => exact ⟨rfl, fun hp => absurd rfl hp⟩

/-- The signature of a walk through a file tells the pass and, unless the walk is over, the byte. -/
theorem describe_injective {w : FileWalk} {p q : FilePhase} {i j : Nat}
    (h : describe { w with phase := p, offset := i } =
      describe { w with phase := q, offset := j }) : p = q ∧ (p ≠ .done → i = j) := by
  rw [describe_eq, describe_eq] at h
  exact placeText_injective ((String.append_right_inj _).1 h)

end FileWalk

/-! ## Mutators in other states -/

namespace Mutator

/-- The same mutator, at any place of its walk. -/
inductive Akin : Mutator → Mutator → Prop
  | counter (c : Counter) (current : Nat) : Akin (counter c) (counter { c with current })
  | strings (d : Dictionary) (index : Nat) : Akin (strings d) (strings { d with index })
  | file (w : FileWalk) (phase : FilePhase) (offset : Nat) :
      Akin (file w) (file { w with phase, offset })
  | lengths (w : LengthWalk) (count : Nat) (done : Bool) :
      Akin (lengths w) (lengths { w with count, done })

namespace Akin

variable {m a b : Mutator}

theorem refl (m : Mutator) : Akin m m := by
  cases m with
  | counter c => exact .counter c c.current
  | strings d => exact .strings d d.index
  | file w => exact .file w w.phase w.offset
  | lengths w => exact .lengths w w.count w.done

theorem next (h : Akin m a) : Akin m a.next := by
  cases h with
  | counter c current => exact .counter c _
  | strings d index =>
    rw [Mutator.next_strings, Dictionary.next_eq]
    split
    · exact .strings d index
    · exact .strings d (index + 1)
  | file w phase offset =>
    rw [Mutator.next_file, FileWalk.next_eq]
    cases phase with
    | inverting =>
      dsimp only
      split
      · exact .file w .removing 0
      · exact .file w .inverting (offset + 1)
    | removing =>
      dsimp only
      split
      · exact .file w .done (offset + 1)
      · exact .file w .removing (offset + 1)
    | done => exact .file w .done offset
  | lengths w count done =>
    rw [Mutator.next_lengths, LengthWalk.next_eq]
    split
    · exact .lengths w count true
    · exact .lengths w (count + 1) done

theorem reset (h : Akin m a) : Akin m a.reset := by
  cases h with
  | counter c current => exact .counter c c.initial
  | strings d index => exact .strings d 0
  | file w phase offset => exact .file w .inverting 0
  | lengths w count done => exact .lengths w w.lower false

theorem perform (h : Akin m a) (commands : List Command) : Akin m (a.perform commands) := by
  induction commands generalizing a with
  | nil => exact h
  | cons command commands ih =>
    cases command with
    | mutate => exact ih h.next
    | reset => exact ih h.reset

/-- In all states of one signature the same is written: what the signature leaves out is not
written. -/
theorem bytes_eq (ha : Akin m a) (hb : Akin m b) (h : a.describe = b.describe) (order : ByteOrder) :
    a.bytes order = b.bytes order := by
  cases ha with
  | counter c n =>
    cases hb with | counter _ k =>
    obtain rfl := Counter.describe_injective h
    rfl
  | strings d i =>
    cases hb with | strings _ j =>
    obtain rfl := Dictionary.describe_injective h
    rfl
  | file w p i =>
    cases hb with | file _ q j =>
    obtain ⟨rfl, hoffset⟩ := FileWalk.describe_injective h
    by_cases hp : p = .done
    · subst hp
      rfl
    · obtain rfl := hoffset hp
      rfl
  | lengths w n done =>
    cases hb with | lengths _ k done' =>
    obtain rfl := LengthWalk.describe_injective h
    rfl

end Akin

/-! ## Distinct signatures -/

variable {m : Mutator}

/-- Before a walk through a file is over, it is in the first or the second pass. -/
theorem exists_after_file {w : FileWalk} (hphase : w.phase = .inverting) (hoffset : w.offset = 0)
    {k : Nat} (hk : k < 2 * w.data.length) :
    ∃ p offset, p ≠ .done ∧ k = (if p = .inverting then 0 else w.data.length) + offset ∧
      (file w).after k = file { w with phase := p, offset } := by
  by_cases hlt : k < w.data.length
  · refine ⟨.inverting, k, by decide, (Nat.zero_add k).symm, ?_⟩
    rw [after_inverting hphase hoffset hlt, ← hphase]
  · obtain ⟨offset, rfl⟩ := Nat.exists_eq_add_of_le (Nat.le_of_not_lt hlt)
    exact ⟨.removing, offset, by decide, rfl, after_removing hphase hoffset (by omega)⟩

/-- The signatures of the states before a mutator is finished are distinct. -/
theorem describe_after_injective (hfirst : m.IsFirst) {n : Nat} (hn : m.states = some n) {i j : Nat}
    (hi : i < n) (hj : j < n) (h : (m.after i).describe = (m.after j).describe) : i = j := by
  cases m with
  | counter c => cases hn
  | strings d =>
    cases hn
    rw [after_strings hfirst.1 (Nat.le_of_lt hi), after_strings hfirst.1 (Nat.le_of_lt hj)] at h
    exact Dictionary.describe_injective h
  | file w =>
    cases hn
    obtain ⟨p, k, hp, rfl, hstate⟩ := exists_after_file hfirst.1 hfirst.2.1 hi
    obtain ⟨q, l, -, rfl, hstate'⟩ := exists_after_file hfirst.1 hfirst.2.1 hj
    rw [hstate, hstate'] at h
    obtain ⟨rfl, hoffset⟩ := FileWalk.describe_injective (w := w) h
    rw [hoffset hp]
  | lengths w =>
    cases hn
    obtain ⟨hcount, hdone, hle⟩ := hfirst
    rw [after_lengths hcount hdone (by omega), after_lengths hcount hdone (by omega)] at h
    have hsame : w.lower + i = w.lower + j := LengthWalk.describe_injective h
    exact Nat.add_left_cancel hsame

/-- The signatures of a counter are distinct until it has gone through all values of its width. -/
theorem describe_counter_injective {c : Counter} (hc : c.current < 2 ^ c.width.bits) {i j : Nat}
    (hi : i < 2 ^ c.width.bits) (hj : j < 2 ^ c.width.bits)
    (h : ((counter c).after i).describe = ((counter c).after j).describe) : i = j := by
  rw [after_counter hc, after_counter hc] at h
  have hvalue : c.current + i ≡ c.current + j [MOD 2 ^ c.width.bits] :=
    Counter.describe_injective h
  have hmoves : i ≡ j [MOD 2 ^ c.width.bits] := Nat.ModEq.add_left_cancel' _ hvalue
  exact hmoves.eq_of_lt_of_lt hi hj

/-! ## Mutators that are made -/

/-- A mutator as it is made. -/
inductive Fresh : Mutator → Prop
  | counter (width : Width) (initial : Nat) : Fresh (.ofWidth width initial)
  | bounded (width : Width) (initial lower upper : Nat) :
      Fresh (.counter ((Counter.start width initial).withBounds lower upper))
  | strings (form : StringForm) (seed : Option String) : Fresh (.ofStrings form seed)
  | file {name : String} {data : Bytes} {m : Mutator} (h : ofFile name data = .ok m) : Fresh m
  | lengths (width lower upper : Nat) : Fresh (.ofLengths width lower upper)

namespace Fresh

theorem isFirst (h : Fresh m) : m.IsFirst := by
  cases h with
  | counter width initial => exact (Made.counter width initial).isFirst
  | bounded width initial lower upper => exact (Made.bounded width initial lower upper).isFirst
  | strings form seed => exact (Made.strings form seed).isFirst
  | file h => exact (Made.file h).isFirst
  | lengths width lower upper => exact ⟨rfl, rfl, Nat.le_max_right _ _⟩

/-- The first value of a counter is one of its width. -/
theorem current_lt {c : Counter} (h : Fresh (.counter c)) : c.current < 2 ^ c.width.bits := by
  cases h with
  | counter width initial => exact Nat.mod_lt _ (Nat.two_pow_pos _)
  | bounded width initial lower upper => exact Nat.mod_lt _ (Nat.two_pow_pos _)
  | file h =>
    obtain ⟨hfile, -⟩ := walk_of_ofFile h
    cases hfile

end Fresh

/-- What signatures tell about a mutator, whatever moves and resets have been made. -/
structure SignatureRule (m : Mutator) : Prop where
  /-- In two states of one signature the same bytes are written, in either order. -/
  bytes : ∀ (commands others : List Command) (order : ByteOrder),
    (m.perform commands).describe = (m.perform others).describe →
      (m.perform commands).bytes order = (m.perform others).bytes order
  /-- If the moves behind a reset were all successful, then the states on the way have distinct
  signatures. -/
  successful : ∀ (commands : List Command) (n : Nat), (∀ c, m ≠ counter c) →
    (∀ k < n, ((m.perform commands).reset.after k).mutate.1 = true) →
      ((List.range (n + 1)).map fun k => ((m.perform commands).reset.after k).describe).Nodup
  /-- A counter has distinct signatures in as many consecutive states as its width has values. -/
  counting : ∀ (commands : List Command) (c : Counter), m.perform commands = counter c →
    ((List.range (2 ^ c.width.bits)).map fun k =>
      ((m.perform commands).after k).describe).Nodup

/-- Signatures tell values, for mutators of every kind. -/
theorem signatureRule {m : Mutator} (h : Fresh m) : SignatureRule m where
  bytes := by
    intro commands others order hdescribe
    have hakin := fun commands => (Akin.refl m).perform commands
    exact (hakin commands).bytes_eq (hakin others) hdescribe order
  successful := by
    intro commands n hkind hmoves
    have hreset : (m.perform commands).reset = m := by
      rw [perform_eq_after h.isFirst, reset_after h.isFirst]
    rw [hreset] at hmoves ⊢
    obtain ⟨states, hstates⟩ : ∃ states, m.states = some states := by
      cases m with
      | counter c => exact absurd rfl (hkind c)
      | strings d => exact ⟨_, rfl⟩
      | file w => exact ⟨_, rfl⟩
      | lengths w => exact ⟨_, rfl⟩
    -- the last of the moves did not finish the mutator
    have hlt : n < states := by
      cases n with
      | zero => exact h.isFirst.states_pos hstates
      | succ n =>
        have hmove : (m.after (n + 1)).finished = false := by
          rw [← Bool.not_eq_true', ← hmoves n (Nat.lt_succ_self n), mutate_fst]
          rfl
        refine Nat.lt_of_not_le ?_
        intro hle
        rw [(finished_after_iff h.isFirst _).2 ⟨states, hstates, hle⟩] at hmove
        cases hmove
    refine List.nodup_range.map_on ?_
    intro i hi j hj hdescribe
    rw [List.mem_range] at hi hj
    exact describe_after_injective h.isFirst hstates (by omega) (by omega) hdescribe
  counting := by
    intro commands c hc
    -- what becomes a counter was made as a counter
    have hakin : Akin m (counter c) := hc ▸ (Akin.refl m).perform commands
    cases hakin with | counter start current =>
    have hlt : current < 2 ^ start.width.bits := by
      rw [perform_eq_after h.isFirst, after_counter h.current_lt] at hc
      cases hc
      exact Nat.mod_lt _ (Nat.two_pow_pos _)
    rw [hc]
    refine List.nodup_range.map_on ?_
    intro i hi j hj hdescribe
    exact describe_counter_injective hlt (List.mem_range.1 hi) (List.mem_range.1 hj) hdescribe

/-- Arrays of one to three elements. The state behind the last array has the signature of the last
one, and writes the same. -/
theorem signatureRule_past_end :
    ∃ m, Fresh m ∧
      (m.perform [.mutate, .mutate]).finished = false ∧
      (m.perform [.mutate, .mutate, .mutate]).finished = true ∧
      (m.perform [.mutate, .mutate]).describe =
        (m.perform [.mutate, .mutate, .mutate]).describe ∧
      (m.perform [.mutate, .mutate]).bytes .bigEndian =
        (m.perform [.mutate, .mutate, .mutate]).bytes .bigEndian ∧
      ((List.range 3).map fun k => ((m.perform [.mutate]).reset.after k).describe).Nodup := by
  have hfresh : Fresh (.ofLengths 2 1 3) := .lengths 2 1 3
  have hrule := signatureRule hfresh
  refine ⟨_, hfresh, rfl, rfl, rfl, ?_, ?_⟩
  · exact hrule.bytes [.mutate, .mutate] [.mutate, .mutate, .mutate] .bigEndian rfl
  · exact hrule.successful [.mutate] 2 (by simp [ofLengths]) (by decide)

end Mutator

end ScriptFuzz
