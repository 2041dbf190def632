import ScriptFuzz.Channel.Layout
import ScriptFuzz.Proofs.Channel.Sources
import ScriptFuzz.Proofs.Code.Invariants

/-!
# Reading from two sources

A reader learns nothing of a source but its byte order and the bytes that it gives. So if each
request for bytes ends in the same way on two sources, then everything that is read does: integers,
lines and messages.

- `EndAlike`: two computations have ended in the same way.
- `Matches`: two computations end in the same way, from states that go together.
- `Source.Simulates`: sources on which requests end in the same way.
- `Source.Simulates.matches_readUInt`, `matches_readLine`, `alike_read`: what is read from them.
- `Source.Simulates.ofInvariant`, `ofKept`: a source beside itself, with a property that requests
  keep. What is read keeps it too (`Matches.keeps`).
-/

namespace ScriptFuzz

/-! ## Computations on two states -/

section Computations

variable {ε σ τ α β : Type} {R : σ → τ → Prop} {E : ε → σ → ε → τ → Prop}

/-- Two computations have both given the same, or they have both failed; `R` and `E` say how the
states go together then. -/
inductive EndAlike (R : σ → τ → Prop) (E : ε → σ → ε → τ → Prop) :
    EStateM.Result ε σ α → EStateM.Result ε τ α → Prop
  | ok {a : α} {s : σ} {t : τ} (h : R s t) : EndAlike R E (.ok a s) (.ok a t)
  | error {e e' : ε} {s : σ} {t : τ} (h : E e s e' t) : EndAlike R E (.error e s) (.error e' t)

/-- Started in states that go together, two computations end in the same way. -/
def Matches (R : σ → τ → Prop) (E : ε → σ → ε → τ → Prop) (x : EStateM ε σ α)
    (y : EStateM ε τ α) : Prop :=
  ∀ s t, R s t → EndAlike R E (x s) (y t)

theorem Matches.pure (a : α) : Matches R E (pure a : EStateM ε σ α) (pure a) :=
  fun _ _ h => .ok h

theorem Matches.bind {x : EStateM ε σ α} {y : EStateM ε τ α} {f : α → EStateM ε σ β}
    {g : α → EStateM ε τ β} (hxy : Matches R E x y) (hfg : ∀ a, Matches R E (f a) (g a)) :
    Matches R E (x >>= f) (y >>= g) := by
  intro s t hst
  have h := hxy s t hst
  generalize hx : x s = r, hy : y t = q at h
  cases h with
  | @ok a s' t' h =>
    rw [bind_of_ok hx, bind_of_ok hy]
    exact hfg a s' t' h
  | error h =>
    rw [bind_of_error hx, bind_of_error hy]
    exact .error h

end Computations

/-! ## Readers -/

/-- Whether an error says that there are not enough bytes. -/
def ChannelError.IsShortage : ChannelError → Prop
  | .closed | .unexpectedEnd _ _ => True
  | .timeout _ | .notConnected | .malformedLine _ | .lineTooLong _ | .layout _ | .transport _ =>
    False

/-- Requests for bytes end in the same way on two sources that go together. -/
structure Source.Simulates {σ τ : Type} [Source σ] [Source τ] (R : σ → τ → Prop)
    (E : ChannelError → σ → ChannelError → τ → Prop) : Prop where
  order_eq : ∀ {s t}, R s t → readOrder s = readOrder t
  matches_receive : ∀ wanted : Nat,
    Matches R E (receive wanted : EStateM ChannelError σ Bytes) (receive wanted)
  /-- Readers can give up by themselves, but not for a shortage. -/
  fails : ∀ {e s t}, R s t → ¬e.IsShortage → E e s e t

namespace Source.Simulates

variable {σ τ α : Type} [Source σ] [Source τ] {R : σ → τ → Prop}
  {E : ChannelError → σ → ChannelError → τ → Prop}

theorem matches_throw (h : Simulates R E) {e : ChannelError} (he : ¬e.IsShortage) :
    Matches R E (throw e : EStateM ChannelError σ α) (throw e) :=
  fun _ _ hst => .error (h.fails hst he)

theorem matches_readUInt (h : Simulates R E) (width : Nat) :
    Matches R E (readUInt width : EStateM ChannelError σ UInt64) (readUInt width) := by
  refine (h.matches_receive width).bind ?_
  intro bytes s t hst
  have hvalue : (readOrder s).decode bytes = (readOrder t).decode bytes := by rw [h.order_eq hst]
  show EndAlike R E (.ok ((readOrder s).decode bytes) s) (.ok ((readOrder t).decode bytes) t)
  rw [hvalue]
  exact .ok hst

theorem matches_readLineFrom (h : Simulates R E) (line : Bytes) (room : Nat) :
    Matches R E (readLineFrom line room : EStateM ChannelError σ String)
      (readLineFrom line room) := by
  induction room generalizing line with
  | zero => exact h.matches_throw id
  | succ room ih =>
    refine (h.matches_readUInt 1).bind ?_
    intro byte
    dsimp only
    by_cases hcr : byte.toUInt8 = cr
    · rw [if_pos hcr, if_pos hcr]
      -- a line ends with a second byte
      refine (h.matches_readUInt 1).bind ?_
      intro next
      by_cases hlf : next.toUInt8 = lf
      · rw [if_pos hlf, if_pos hlf]
        exact .pure _
      · rw [if_neg hlf, if_neg hlf]
        by_cases hreturn : next.toUInt8 = cr
        · rw [if_pos hreturn, if_pos hreturn]
          exact h.matches_throw id
        · rw [if_neg hreturn, if_neg hreturn]
          exact h.matches_throw id
    · rw [if_neg hcr, if_neg hcr]
      by_cases hlf : byte.toUInt8 = lf
      · rw [if_pos hlf, if_pos hlf]
        exact h.matches_throw id
      · rw [if_neg hlf, if_neg hlf]
        exact ih _

theorem matches_readLine (h : Simulates R E) :
    Matches R E (readLine : EStateM ChannelError σ String) readLine :=
  h.matches_readLineFrom [] _

/-! ## Messages -/

theorem matches_readField (h : Simulates R E) (captured : Array FieldValue)
    (field : ScriptFuzz.Field) :
    Matches R E (Layout.readField captured field : EStateM ChannelError σ FieldValue)
      (Layout.readField captured field) := by
  cases field with
  | scalar width => exact (h.matches_readUInt width.bytes).bind fun _ => .pure _
  | bytes length => exact (h.matches_receive length).bind fun _ => .pure _
  | counted lengthField max =>
    rw [Layout.readField, Layout.readField]
    cases captured[lengthField]? with
    | none => exact h.matches_throw id
    | some value =>
      cases value with
      | bytes value => exact h.matches_throw id
      | unsigned length =>
        dsimp only
        by_cases hmax : max < length.toNat
        · rw [if_pos hmax, if_pos hmax]
          exact h.matches_throw id
        · rw [if_neg hmax, if_neg hmax]
          exact (h.matches_receive length.toNat).bind fun _ => .pure _

/-- Also the values that are captured before a field fails are the same. -/
theorem alike_readFields (h : Simulates R E) (captured : Array FieldValue) {s : σ} {t : τ}
    (hst : R s t) (fields : List ScriptFuzz.Field) :
    (Layout.readFields captured s fields).1 = (Layout.readFields captured t fields).1 ∧
      EndAlike R E (Layout.readFields captured s fields).2
        (Layout.readFields captured t fields).2 := by
  induction fields generalizing captured s t with
  | nil => exact ⟨rfl, .ok hst⟩
  | cons field fields ih =>
    rw [Layout.readFields, Layout.readFields]
    have hfield := h.matches_readField captured field s t hst
    generalize Layout.readField captured field s = r, Layout.readField captured field t = q
      at hfield ⊢
    cases hfield with
    | ok hst' => exact ih _ hst'
    | error he => exact ⟨rfl, .error he⟩

theorem alike_read (h : Simulates R E) (layout : Layout) {s : σ} {t : τ} (hst : R s t) :
    (layout.read s).1 = (layout.read t).1 ∧ EndAlike R E (layout.read s).2 (layout.read t).2 := by
  obtain ⟨hcaptured, halike⟩ := h.alike_readFields #[] hst layout.fields.toList
  exact ⟨congrArg (fun captured => { layout with captured }) hcaptured, halike⟩

/-! ## One source -/

/-- A source beside itself: `I` holds as long as nothing fails, and `F` of each failure. -/
theorem ofInvariant {I : σ → Prop} {F : ChannelError → σ → Prop}
    (hok : ∀ {wanted s bytes s'}, I s → receive wanted s = .ok bytes s' → I s')
    (herror : ∀ {wanted s} {e : ChannelError} {s'}, I s → receive wanted s = .error e s' → F e s')
    (hthrow : ∀ {e : ChannelError} {s}, I s → ¬e.IsShortage → F e s) :
    Simulates (fun s t => s = t ∧ I s) (fun e s e' t => e = e' ∧ s = t ∧ F e s) where
  order_eq := by
    rintro s t ⟨rfl, -⟩
    rfl
  matches_receive := by
    rintro wanted s t ⟨rfl, hs⟩
    cases hreceive : receive wanted s with
    | ok bytes s' => exact .ok ⟨rfl, hok hs hreceive⟩
    | error e s' => exact .error ⟨rfl, rfl, herror hs hreceive⟩
  fails := by
    rintro e s t ⟨rfl, hs⟩ he
    exact ⟨rfl, rfl, hthrow hs he⟩

/-- A property that requests keep, whether they fail or not. -/
theorem ofKept {I : σ → Prop}
    (h : ∀ wanted : Nat, Keeps I (receive wanted : EStateM ChannelError σ Bytes)) :
    Simulates (fun s t => s = t ∧ I s) (fun e s e' t => e = e' ∧ s = t ∧ I s) := by
  refine ofInvariant ?_ ?_ (fun hs _ => hs)
  · intro wanted s bytes s' hs hreceive
    have hkept := h wanted s hs
    rwa [finalState, hreceive] at hkept
  · intro wanted s e s' hs hreceive
    have hkept := h wanted s hs
    rwa [finalState, hreceive] at hkept

end Source.Simulates

/-- A computation that matches itself under a property keeps the property. -/
theorem Matches.keeps {ε σ α : Type} {I : σ → Prop} {x : EStateM ε σ α}
    (h : Matches (fun s t => s = t ∧ I s) (fun e s e' t => e = e' ∧ s = t ∧ I s) x x) :
    Keeps I x := by
  intro s hs
  have hend := h s s ⟨rfl, hs⟩
  rw [finalState]
  generalize x s = r at hend
  cases hend with
  | ok h => exact h.2
  | error h => exact h.2.2

end ScriptFuzz
