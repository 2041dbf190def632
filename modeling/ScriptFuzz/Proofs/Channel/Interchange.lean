import ScriptFuzz.Channel.Memory
import ScriptFuzz.Proofs.Channel.Lines
import ScriptFuzz.Proofs.Channel.Simulation

/-!
# The sources in memory take each other's place

Reads from an array and from a channel in memory, over the same bytes, end in the same way up to the
first that fails, and this one fails on both. Only shortages are told differently: the array says
how many bytes were wanted and keeps those that it has, and the channel is closed from then on.

- `SourceCall`: what can be read from a source.
- `Observed`: a source that notes which bytes are requested from it, and in which state.
- `SourceCall.Asks`: a read of at least one byte.
- `MemoryChannel.perform_of_empty`, `perform_of_asks`: reads from a channel that has nothing left.
- `Interchange`: how reads end on an array and on a channel, one after the other.
- `sources_interchangeable`: over the same bytes, they end in this way.
-/

namespace ScriptFuzz

/-! ## Reads -/

/-- What can be read from a source. -/
inductive SourceCall where
  /-- An unsigned integer with a number of bytes. -/
  | uint (width : Nat)
  /-- A line. -/
  | line
  /-- The fields of a layout. -/
  | message (layout : Layout)

/-- What is read. -/
inductive SourceAnswer where
  | uint (value : UInt64)
  | line (text : String)
  /-- The layout, with the values that it has captured. -/
  | message (layout : Layout)

namespace SourceCall

variable {σ τ : Type} [Source σ] [Source τ]

/-- Reads from a source. -/
def perform : SourceCall → EStateM ChannelError σ SourceAnswer
  | .uint width => do return .uint (← Source.readUInt width)
  | .line => do return .line (← Source.readLine)
  | .message layout => fun s =>
    match layout.read s with
    | (layout, .ok () s) => .ok (.message layout) s
    | (_, .error e s) => .error e s

/-- The source behind reads, one after the other, whether they fail or not. -/
def after (s : σ) (calls : List SourceCall) : σ :=
  calls.foldl (fun s call => finalState call.perform s) s

/-- Reads end in the same way on sources on which requests do. -/
theorem matches_perform {R : σ → τ → Prop} {E : ChannelError → σ → ChannelError → τ → Prop}
    (h : Source.Simulates R E) (call : SourceCall) :
    Matches R E (call.perform : EStateM ChannelError σ SourceAnswer) call.perform := by
  cases call with
  | uint width => exact (h.matches_readUInt width).bind fun _ => .pure _
  | line => exact h.matches_readLine.bind fun _ => .pure _
  | message layout =>
    intro s t hst
    obtain ⟨hlayout, halike⟩ := h.alike_read layout hst
    rw [perform, perform]
    dsimp only
    generalize layout.read s = r, layout.read t = q at hlayout halike ⊢
    obtain ⟨layout', r⟩ := r
    obtain ⟨_, q⟩ := q
    cases halike with
    | ok h =>
      obtain rfl : layout' = _ := hlayout
      exact .ok h
    | error h => exact .error h

end SourceCall

/-! ## Requests -/

/-- A request for bytes. -/
structure Request (σ : Type) where
  /-- The number of bytes that were wanted. -/
  wanted : Nat
  /-- The source as it was then. -/
  state : σ

/-- A source that notes what is requested from it. -/
structure Observed (σ : Type) where
  /-- The source. -/
  source : σ
  /-- The requests so far, the latest first. -/
  requests : List (Request σ) := []

instance {σ : Type} [Source σ] : Source (Observed σ) where
  receive wanted := fun o =>
    match Source.receive wanted o.source with
    | .ok bytes s => .ok bytes ⟨s, ⟨wanted, o.source⟩ :: o.requests⟩
    | .error e s => .error e ⟨s, ⟨wanted, o.source⟩ :: o.requests⟩
  readOrder o := Source.readOrder o.source

namespace Observed

variable {σ : Type} [Source σ] {o : Observed σ} {wanted : Nat} {bytes : Bytes} {e : ChannelError}
  {s : σ}

theorem receive_of_ok (h : Source.receive wanted o.source = .ok bytes s) :
    Source.receive wanted o = .ok bytes ⟨s, ⟨wanted, o.source⟩ :: o.requests⟩ := by
  show (match Source.receive wanted o.source with | .ok _ _ => _ | .error _ _ => _) = _
  rw [h]

theorem receive_of_error (h : Source.receive wanted o.source = .error e s) :
    Source.receive wanted o = .error e ⟨s, ⟨wanted, o.source⟩ :: o.requests⟩ := by
  show (match Source.receive wanted o.source with | .ok _ _ => _ | .error _ _ => _) = _
  rw [h]

/-- Nobody who reads can tell whether requests are noted. -/
theorem simulates : Source.Simulates (fun (o : Observed σ) s => o.source = s)
    (fun e o e' s => e = e' ∧ o.source = s) where
  order_eq := by
    rintro o s rfl
    rfl
  matches_receive := by
    rintro wanted o s rfl
    cases h : Source.receive wanted o.source with
    | ok bytes s' =>
      rw [receive_of_ok h]
      exact .ok rfl
    | error e s' =>
      rw [receive_of_error h]
      exact .error ⟨rfl, rfl⟩
  fails h _ := ⟨rfl, h⟩

end Observed

/-- The requests that a read makes of a source, the latest first. -/
def SourceCall.requests {σ : Type} [Source σ] (call : SourceCall) (s : σ) : List (Request σ) :=
  (finalState call.perform ({ source := s } : Observed σ)).requests

/-- A read of at least one byte: an integer that has bytes, a line, or a message of which a byte is
requested. -/
def SourceCall.Asks {σ : Type} [Source σ] (s : σ) : SourceCall → Prop
  | .uint width => 0 < width
  | .line => True
  | .message layout => ∃ request ∈ requests (.message layout) s, 0 < request.wanted

/-! ## A channel that has nothing left -/

namespace MemoryChannel

/-- No bytes are always there. -/
theorem receive_zero (c : MemoryChannel) : Source.receive 0 c = .ok [] c :=
  receive_of_le (Nat.zero_le _)

/-- Nothing has been requested of a channel that has nothing left, or only no bytes. -/
def Idle (o : Observed MemoryChannel) : Prop := ∀ request ∈ o.requests, request.wanted = 0

/-- As long as no byte is requested of a channel that has nothing left, nothing happens to it, and
then it is closed. -/
theorem simulates_of_empty :
    Source.Simulates (fun o p => o = p ∧ (o.source.incoming = [] ∧ Idle o))
      (fun e o e' p => e = e' ∧ o = p ∧ (o.source.incoming = [] ∧ (Idle o ∨ e = .closed))) := by
  refine .ofInvariant ?_ ?_ ?_
  · rintro wanted ⟨c, requests⟩ bytes o' ⟨hempty, hidle⟩ h
    cases wanted with
    | zero =>
      rw [Observed.receive_of_ok c.receive_zero] at h
      cases h
      exact ⟨hempty, List.forall_mem_cons.2 ⟨rfl, hidle⟩⟩
    | succ n =>
      have hshort : c.incoming.length < n + 1 := by simp [show c.incoming = [] from hempty]
      rw [Observed.receive_of_error (receive_of_lt hshort)] at h
      cases h
  · rintro wanted ⟨c, requests⟩ e o' ⟨hempty, hidle⟩ h
    cases wanted with
    | zero =>
      rw [Observed.receive_of_ok c.receive_zero] at h
      cases h
    | succ n =>
      have hshort : c.incoming.length < n + 1 := by simp [show c.incoming = [] from hempty]
      rw [Observed.receive_of_error (receive_of_lt hshort)] at h
      cases h
      exact ⟨rfl, .inr rfl⟩
  · rintro e o ⟨hempty, hidle⟩ -
    exact ⟨hempty, .inl hidle⟩

/-- A read leaves a channel that has nothing left as it was in this, and if it fails for lack of
bytes that it requests, it says that the channel is closed. -/
theorem perform_of_empty {c : MemoryChannel} (h : c.incoming = []) (call : SourceCall) :
    (finalState call.perform c).incoming = [] ∧
      ((∃ request ∈ call.requests c, 0 < request.wanted) →
        ∃ c', call.perform c = .error .closed c') := by
  have hplain := SourceCall.matches_perform Observed.simulates call { source := c } c rfl
  have hidle := SourceCall.matches_perform simulates_of_empty call { source := c } { source := c }
    ⟨rfl, h, fun request hmem => absurd hmem List.not_mem_nil⟩
  have hbusy : ∀ o, Idle o → ¬∃ request ∈ o.requests, 0 < request.wanted := by
    rintro o hidle ⟨request, hmem, hpos⟩
    exact Nat.ne_of_gt hpos (hidle request hmem)
  rw [SourceCall.requests]
  unfold finalState
  generalize call.perform ({ source := c } : Observed MemoryChannel) = r, call.perform c = q
    at hplain hidle
  cases hplain with
  | ok hsource =>
    subst hsource
    cases hidle with | ok hstate =>
    obtain ⟨-, hempty, hidle⟩ := hstate
    exact ⟨hempty, fun hrequest => absurd hrequest (hbusy _ hidle)⟩
  | error hsource =>
    obtain ⟨rfl, rfl⟩ := hsource
    cases hidle with | error hstate =>
    obtain ⟨-, -, hempty, hidle | rfl⟩ := hstate
    · exact ⟨hempty, fun hrequest => absurd hrequest (hbusy _ hidle)⟩
    · exact ⟨hempty, fun _ => ⟨_, rfl⟩⟩

/-- From a channel that has nothing left no byte can be read. -/
theorem perform_of_asks {c : MemoryChannel} (h : c.incoming = []) {call : SourceCall}
    (hasks : call.Asks c) : ∃ c', call.perform c = .error .closed c' := by
  cases call with
  | uint width =>
    have hshort : c.incoming.length < width := by
      rw [h]
      exact hasks
    exact ⟨_, bind_of_error (Source.readUInt_of_error (receive_of_lt hshort))⟩
  | line =>
    have hnil : LawfulSource.unread c = [] := h
    obtain ⟨c', hread⟩ := Source.readLineFrom_of_nil [] (Source.maxLineLength - 2) hnil
    exact ⟨c', bind_of_error hread⟩
  | message layout => exact (perform_of_empty h _).2 hasks

theorem after_of_empty {c : MemoryChannel} (h : c.incoming = []) (calls : List SourceCall) :
    (SourceCall.after c calls).incoming = [] := by
  induction calls generalizing c with
  | nil => exact h
  | cons call calls ih => exact ih (perform_of_empty h call).1

end MemoryChannel

/-! ## An array and a channel -/

namespace ArraySource

/-- An array and a channel have the same bytes left. -/
def Level (o : Observed ArraySource) (c : MemoryChannel) : Prop :=
  o.source.unread = c.incoming ∧ o.source.order = c.order

/-- The latest request was for more bytes than the array has. It has kept those. -/
def Short (e : ChannelError) (o : Observed ArraySource) : Prop :=
  ∃ wanted earlier, o.requests = ⟨wanted, o.source⟩ :: earlier ∧
    o.source.unread.length < wanted ∧ e = .unexpectedEnd wanted o.source.unread.length

/-- An array and a channel with the same bytes go together, up to the first failure. -/
theorem simulates_channel :
    Source.Simulates Level (fun e o e' c =>
      (¬e.IsShortage ∧ e' = e) ∨ (Short e o ∧ e' = .closed ∧ c.incoming = [])) where
  order_eq h := h.2
  matches_receive := by
    rintro wanted o c ⟨hunread, horder⟩
    by_cases hle : wanted ≤ c.incoming.length
    · have hle' : wanted ≤ o.source.unread.length := hunread ▸ hle
      rw [Observed.receive_of_ok (receive_of_le hle'), MemoryChannel.receive_of_le hle, hunread]
      exact .ok ⟨by rw [o.source.unread_advance, hunread], horder⟩
    · have hlt := Nat.lt_of_not_le hle
      have hlt' : o.source.unread.length < wanted := hunread ▸ hlt
      rw [Observed.receive_of_error (receive_of_lt hlt'), MemoryChannel.receive_of_lt hlt]
      exact .error (.inr ⟨⟨wanted, o.requests, rfl, hlt', rfl⟩, rfl, rfl⟩)
  fails _ he := .inl ⟨he, rfl⟩

end ArraySource

/-- How reads end on an array and on a channel, one after the other. -/
inductive Interchange : ArraySource → MemoryChannel → List SourceCall → Prop
  | done {s : ArraySource} {c : MemoryChannel} : Interchange s c []
  /-- As long as nothing fails, the same is read. -/
  | ok {s s' : ArraySource} {c c' : MemoryChannel} {call : SourceCall} {calls : List SourceCall}
      {answer : SourceAnswer} (hs : call.perform s = .ok answer s')
      (hc : call.perform c = .ok answer c') (h : Interchange s' c' calls) :
      Interchange s c (call :: calls)
  /-- A failure that is no shortage is the same on both. -/
  | error {s s' : ArraySource} {c c' : MemoryChannel} {call : SourceCall} {calls : List SourceCall}
      {e : ChannelError} (he : ¬e.IsShortage) (hs : call.perform s = .error e s')
      (hc : call.perform c = .error e c') : Interchange s c (call :: calls)
  /-- If there are too few bytes for a request, the array is as it was at this request, and of the
  channel no byte can be requested any more, whatever is read from it. -/
  | shortage {s s' : ArraySource} {c c' : MemoryChannel} {call : SourceCall}
      {calls : List SourceCall} {wanted : Nat} {earlier : List (Request ArraySource)}
      (hs : call.perform s = .error (.unexpectedEnd wanted s'.unread.length) s')
      (hrequest : call.requests s = ⟨wanted, s'⟩ :: earlier) (hwanted : s'.unread.length < wanted)
      (hc : call.perform c = .error .closed c')
      (hclosed : ∀ (later : List SourceCall) (next : SourceCall),
        next.Asks (SourceCall.after c' later) →
          ∃ c'', next.perform (SourceCall.after c' later) = .error .closed c'') :
      Interchange s c (call :: calls)

theorem Interchange.of_level {s : ArraySource} {c : MemoryChannel} (hunread : s.unread = c.incoming)
    (horder : s.order = c.order) (calls : List SourceCall) : Interchange s c calls := by
  induction calls generalizing s c with
  | nil => exact .done
  | cons call calls ih =>
    have hplain := SourceCall.matches_perform Observed.simulates call { source := s } s rfl
    have halike := SourceCall.matches_perform ArraySource.simulates_channel call { source := s } c
      ⟨hunread, horder⟩
    generalize ho : call.perform ({ source := s } : Observed ArraySource) = r,
      hs : call.perform s = p, hc : call.perform c = q at hplain halike
    cases hplain with
    | ok hsource =>
      subst hsource
      cases halike with | ok hlevel =>
      exact .ok hs hc (ih hlevel.1 hlevel.2)
    | @error _ _ o _ hsource =>
      obtain ⟨rfl, rfl⟩ := hsource
      cases halike with | error hend =>
      rcases hend with ⟨he, rfl⟩ | ⟨⟨wanted, earlier, hrequests, hlt, rfl⟩, rfl, hempty⟩
      · exact .error he hs hc
      · have hlast : call.requests s = ⟨wanted, o.source⟩ :: earlier := by
          rw [SourceCall.requests, finalState, ho]
          exact hrequests
        refine .shortage hs hlast hlt hc ?_
        intro later next
        exact MemoryChannel.perform_of_asks (MemoryChannel.after_of_empty hempty later)

/-- An array and a channel over the same bytes and with the same byte order can take each other's
place, whatever is read from them. -/
theorem sources_interchangeable (bytes : Bytes) (order : ByteOrder) (sent : Array UInt8)
    (calls : List SourceCall) :
    Interchange { data := bytes, order } { incoming := bytes, order, sent } calls :=
  .of_level rfl rfl calls

end ScriptFuzz
