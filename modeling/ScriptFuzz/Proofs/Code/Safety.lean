import ScriptFuzz.Proofs.Code.Simulation
import ScriptFuzz.Proofs.Code.Stack

/-!
# Methods in order do not go wrong

The machine checks when it runs whether there are enough values and whether operands are in range.
For methods in order (`Script.InOrder`) these checks never fail:

- `Machine.Reaches.inOrder`: wherever a call comes, the stack is as high as `heightOf` says, and the
  next instruction may stand there;
- `Machine.safe_run`: a call fails with a fault only where a function of the host does, and calls
  never nest too deep.
-/

namespace ScriptFuzz

/-- Failures that tell that code is not in order. -/
def ExecError.isFault : ExecError → Bool
  | .emptyStack | .stackUnderflow .. | .badOperand .. => true
  | .unknownTemplate _ | .lookup | .callsTooDeep => true
  | _ => false

/-- The frame has `n` values on its stack, and the variables of its method. -/
def Frame.Holds (m : Method) (n : Nat) (frame : Frame) : Prop :=
  frame.stack.length = n ∧ frame.locals.size = m.locals

theorem Frame.Holds.push {m : Method} {n : Nat} {frame : Frame} (h : frame.Holds m n) (v : Value) :
    (frame.push v).Holds m (n + 1) :=
  ⟨congrArg (· + 1) h.1, h.2⟩

variable {σ α β : Type} {Raised : ExecError → σ → Prop}

/-! ## Computations without faults -/

/-- A computation whose results are as `P` says, and that fails with a fault only if the fault has
been raised elsewhere. -/
structure Safe (Raised : ExecError → σ → Prop) (P : α → Prop) (x : EStateM ExecError σ α) :
    Prop where
  result : ∀ s a s', x s = .ok a s' → P a
  fault : ∀ s e s', x s = .error e s' → e.isFault → Raised e s'

namespace Safe

variable {P : α → Prop} {Q : β → Prop}

theorem pure {a : α} (h : P a) : Safe Raised P (pure a) where
  result s b s' hb := by
    cases hb
    exact h
  fault s e s' he := by cases he

theorem throw {e : ExecError} (h : e.isFault = false) : Safe Raised P (throw e) where
  result s a s' ha := by cases ha
  fault s e' s' he hfault := by
    cases he
    rw [h] at hfault
    exact absurd hfault Bool.false_ne_true

theorem get : Safe Raised (fun _ => True) (get : EStateM ExecError σ σ) where
  result s a s' _ := trivial
  fault s e s' he := by cases he

theorem bind {x : EStateM ExecError σ α} {f : α → EStateM ExecError σ β} (hx : Safe Raised P x)
    (hf : ∀ a, P a → Safe Raised Q (f a)) : Safe Raised Q (x >>= f) where
  result s b s' hb := by
    simp only [Bind.bind, EStateM.bind] at hb
    cases h : x s with
    | ok a t =>
      rw [h] at hb
      exact (hf a (hx.result s a t h)).result t b s' hb
    | error e t =>
      rw [h] at hb
      cases hb
  fault s e s' he hfault := by
    simp only [Bind.bind, EStateM.bind] at he
    cases h : x s with
    | ok a t =>
      rw [h] at he
      exact (hf a (hx.result s a t h)).fault t e s' he hfault
    | error e' t =>
      rw [h] at he
      cases he
      exact hx.fault s e s' h hfault

/-- A result that is known already, where failures are of a kind that is no fault. -/
theorem ofExcept {ε : Type} {f : ε → ExecError} (hf : ∀ e, (f e).isFault = false)
    (x : Except ε α) : Safe Raised (fun _ => True) (Machine.ofExcept (x.mapError f)) := by
  cases x with
  | ok a => exact pure trivial
  | error e => exact throw (hf e)

theorem operand {sort : OperandSort} {i : Instruction} {o : Option α} (h : o.isSome) :
    Safe Raised (o = some ·) (Machine.operand sort i o) := by
  obtain ⟨a, rfl⟩ := Option.isSome_iff_exists.1 h
  exact pure rfl

variable {m : Method} {n : Nat} {frame : Frame}

/-- An operand that is in range is pushed. -/
theorem pushOperand {sort : OperandSort} {i : Instruction} {o : Option α} (ho : o.isSome)
    (h : frame.Holds m n) (f : α → Value) :
    Safe Raised (Frame.Holds m (n + 1))
      (do return frame.push (f (← Machine.operand sort i o))) := by
  refine (operand ho).bind ?_
  intro a _
  exact pure (h.push (f a))

theorem pop (h : frame.Holds m (n + 1)) :
    Safe Raised (fun r => r.2.Holds m n) (Machine.ofExcept frame.pop) := by
  obtain ⟨v, stack, hstack⟩ := List.exists_cons_of_length_eq_add_one h.1
  have hlen : stack.length = n := by simpa [hstack] using h.1
  rw [Frame.pop, hstack]
  exact pure ⟨hlen, h.2⟩

theorem popArguments {count : Nat} (hle : count ≤ n) (h : frame.Holds m n) :
    Safe Raised (fun r => r.1.length = count ∧ r.2.Holds m (n - count))
      (Machine.ofExcept (frame.popArguments count)) := by
  have hcount : count ≤ frame.stack.length := h.1 ▸ hle
  rw [Frame.popArguments, if_neg (Nat.not_lt.2 hcount)]
  refine pure ⟨?_, ?_, h.2⟩
  · rw [List.length_reverse, List.length_take, Nat.min_eq_left hcount]
  · rw [List.length_drop, h.1]

end Safe

/-! ## Calls -/

namespace Machine

variable {machine : Machine σ} {invoke : Method → List Value → EStateM ExecError σ Value}
  {m : Method} {values : List Value}

/-- What a method calls only fails with faults that have been raised elsewhere. -/
structure SafeCalls (Raised : ExecError → σ → Prop) (machine : Machine σ)
    (invoke : Method → List Value → EStateM ExecError σ Value) (m : Method) : Prop where
  methods : ∀ (i : Nat) (callee : Method) (values : List Value),
    machine.script.methods[i]? = some callee → i < m.index → i < Scope.limit →
    values.length = callee.arity → Safe Raised (fun _ => True) (invoke callee values)
  handlers : ∀ (name : String) (call : List Value → EStateM ExecError σ Value)
    (values : List Value), machine.handlers name = some (.ready call) →
    Safe Raised (fun _ => True) (call values)

/-- The call of a function of the host. -/
theorem safe_callHost {j count n k : Nat} {frame : Frame} (h : frame.Holds m n)
    (hi : (Instruction.callHost j count).height? machine.script m n = some k)
    (hcalls : SafeCalls Raised machine invoke m) :
    Safe Raised (Frame.Holds m k)
      (machine.step invoke m values.toArray (.callHost j count) frame) := by
  obtain ⟨⟨hlt, hle⟩, ⟨⟩⟩ := Option.ite_none_right_eq_some.1 hi
  refine (Safe.operand (by simpa using hlt)).bind ?_
  intro name _
  cases hname : machine.handlers name with
  | none => exact .throw rfl
  | some handler =>
    refine (Safe.popArguments hle h).bind ?_
    rintro ⟨given, below⟩ ⟨-, hbelow⟩
    cases handler with
    | busy => exact .throw rfl
    | ready call =>
      refine (hcalls.handlers name call given hname).bind ?_
      intro v _
      exact .pure (hbelow.push v)

/-- The call of a method: it is an earlier one, and gets as many values as it takes. -/
theorem safe_call {j n k : Nat} {frame : Frame} (h : frame.Holds m n)
    (hi : (Instruction.call j).height? machine.script m n = some k)
    (hcalls : SafeCalls Raised machine invoke m) :
    Safe Raised (Frame.Holds m k) (machine.step invoke m values.toArray (.call j) frame) := by
  cases hj : machine.script.methods[j]? with
  | none => simp [Instruction.height?, hj] at hi
  | some callee =>
    simp only [Instruction.height?, hj] at hi
    obtain ⟨⟨hindex, hlimit, hle⟩, ⟨⟩⟩ := Option.ite_none_right_eq_some.1 hi
    refine (Safe.operand (by simp [hj])).bind ?_
    intro callee' hcallee
    obtain rfl : callee = callee' := by simpa [hj] using hcallee
    refine (Safe.popArguments hle h).bind ?_
    rintro ⟨given, below⟩ ⟨hgiven, hbelow⟩
    refine (hcalls.methods j callee given hj hindex hlimit hgiven).bind ?_
    intro v _
    exact .pure (hbelow.push v)

/-- The use of a template. -/
theorem safe_getTemplate {j n k : Nat} {frame : Frame} (h : frame.Holds m n)
    (hi : (Instruction.getTemplate j).height? machine.script m n = some k) :
    Safe Raised (Frame.Holds m k)
      (machine.step invoke m values.toArray (.getTemplate j) frame) := by
  obtain ⟨hsome, ⟨⟩⟩ := Option.ite_none_right_eq_some.1 hi
  obtain ⟨name, hname⟩ := Option.isSome_iff_exists.1 (Option.isSome_of_isSome_bind hsome)
  rw [hname, Option.bind_some] at hsome
  obtain ⟨t, ht⟩ := Option.isSome_iff_exists.1 hsome
  refine (Safe.operand (by simp [hname])).bind ?_
  intro x hx
  obtain rfl : name = x := by simpa [hname] using hx
  simp only [ht]
  refine Safe.get.bind ?_
  intro s _
  refine (Safe.ofExcept (fun _ => rfl) _).bind ?_
  intro bytes _
  exact .pure (h.push _)

/-- An instruction that may stand where it does leaves the stack as high as it should. -/
theorem safe_step {i : Instruction} {frame : Frame} {n k : Nat} (h : frame.Holds m n)
    (hi : i.height? machine.script m n = some k) (hleave : i ≠ .leave)
    (hvalues : values.length = m.arity) (hcalls : SafeCalls Raised machine invoke m) :
    Safe Raised (Frame.Holds m k) (machine.step invoke m values.toArray i frame) := by
  cases i with
  | arith op =>
    obtain ⟨hle, ⟨⟩⟩ := Option.ite_none_right_eq_some.1 hi
    obtain ⟨n, rfl⟩ := Nat.exists_eq_add_of_le' hle
    refine (Safe.pop h).bind ?_
    rintro ⟨right, frame₁⟩ h₁
    refine (Safe.pop h₁).bind ?_
    rintro ⟨left, frame₂⟩ h₂
    refine (Safe.ofExcept (fun _ => rfl) _).bind ?_
    intro v _
    exact .pure (h₂.push v)
  | sizeOf =>
    obtain ⟨hle, ⟨⟩⟩ := Option.ite_none_right_eq_some.1 hi
    obtain ⟨n, rfl⟩ := Nat.exists_eq_add_of_le' hle
    refine (Safe.pop h).bind ?_
    rintro ⟨v, frame₁⟩ h₁
    refine (Safe.ofExcept (fun _ => rfl) _).bind ?_
    intro size _
    exact .pure (h₁.push size)
  | pushInt j =>
    obtain ⟨hlt, ⟨⟩⟩ := Option.ite_none_right_eq_some.1 hi
    exact .pushOperand (by simpa using hlt) h .int
  | pushText j =>
    obtain ⟨hlt, ⟨⟩⟩ := Option.ite_none_right_eq_some.1 hi
    exact .pushOperand (by simpa using hlt) h .text
  | getLocal slot =>
    obtain ⟨hlt, ⟨⟩⟩ := Option.ite_none_right_eq_some.1 hi
    exact .pushOperand (by simpa [h.2] using hlt) h id
  | getArg j =>
    obtain ⟨hlt, ⟨⟩⟩ := Option.ite_none_right_eq_some.1 hi
    exact .pushOperand (by simpa [hvalues] using hlt) h id
  | getTemplate j => exact safe_getTemplate h hi
  | callHost j count => exact safe_callHost h hi hcalls
  | call j => exact safe_call h hi hcalls
  | setLocal slot =>
    obtain ⟨⟨rfl, hlt⟩, ⟨⟩⟩ := Option.ite_none_right_eq_some.1 hi
    refine (Safe.pop h).bind ?_
    rintro ⟨v, below⟩ ⟨hheight, hsize⟩
    show Safe _ _ (if slot < below.locals.size then _ else _)
    rw [if_pos (hsize ▸ hlt)]
    exact .pure ⟨hheight, by rw [Array.size_setIfInBounds, hsize]⟩
  | pop =>
    obtain ⟨rfl, ⟨⟩⟩ := Option.ite_none_right_eq_some.1 hi
    refine (Safe.pop h).bind ?_
    rintro ⟨v, below⟩ hbelow
    exact .pure hbelow
  | callVoid j => cases hi
  | lookup j => cases hi
  | leave => exact absurd rfl hleave

/-- The code of a call that is left does not go wrong, if it may stand where it does. -/
theorem safe_runFrom {code : List Instruction} {frame : Frame} {n k : Nat}
    (h : frame.Holds m n) (hcode : heightOf machine.script m n code = some k)
    (hvalues : values.length = m.arity) (hcalls : SafeCalls Raised machine invoke m) :
    Safe Raised (fun _ => True) (machine.runFrom invoke m values.toArray code frame) := by
  induction code generalizing frame n with
  | nil => exact .pure trivial
  | cons i code ih =>
    rw [heightOf_cons] at hcode
    obtain ⟨_, hi, hrest⟩ := Option.bind_eq_some_iff.1 hcode
    by_cases hleave : i = .leave
    · subst hleave
      obtain ⟨rfl, -⟩ := Option.ite_none_right_eq_some.1 hi
      obtain ⟨v, hstack⟩ := List.length_eq_one_iff.1 h.1
      rw [runFrom, Frame.pop, hstack]
      exact .pure trivial
    · -- one instruction, and then the others
      rw [runFrom_cons hleave]
      refine (safe_step h hi hleave hvalues hcalls).bind ?_
      intro next hnext
      exact ih hnext hrest

/-- Calls of methods in order do not go wrong, if they may nest as deep as the number of the method
says. -/
theorem safe_run (hs : machine.script.InOrder)
    (hhost : ∀ (name : String) (call : List Value → EStateM ExecError σ Value)
      (values : List Value), machine.handlers name = some (.ready call) →
      Safe Raised (fun _ => True) (call values)) {depth : Nat} (hm : m ∈ machine.script.methods)
    (hdepth : min m.index Scope.limit < depth) (hvalues : values.length = m.arity) :
    Safe Raised (fun _ => True) (machine.run depth m values) := by
  induction depth generalizing m values with
  | zero => exact absurd hdepth (Nat.not_lt_zero _)
  | succ depth ih =>
    refine safe_runFrom ⟨rfl, Array.size_replicate⟩ (hs.heights m hm) hvalues ⟨?_, hhost⟩
    intro i callee given hcallee hi hlimit hgiven
    -- the called method has a smaller number
    have hindex : callee.index = i := hs.index i callee hcallee
    exact ih (Array.mem_of_getElem? hcallee) (by omega) hgiven

/-! ## The places of a call -/

/-- The places that a call comes to: the instructions behind it, those that are left, the frame and
the state of the host. -/
inductive Reaches (machine : Machine σ)
    (invoke : Method → List Value → EStateM ExecError σ Value) (m : Method) (values : List Value)
    (s : σ) : List Instruction → List Instruction → Frame → σ → Prop
  | start : Reaches machine invoke m values s [] m.code.toList
      { locals := .replicate m.locals .undefined } s
  | step {done rest : List Instruction} {i : Instruction} {frame next : Frame} {t u : σ} :
    Reaches machine invoke m values s done (i :: rest) frame t → i ≠ .leave →
    machine.step invoke m values.toArray i frame t = .ok next u →
    Reaches machine invoke m values s (done ++ [i]) rest next u

/-- What a call does is what is left of it at a place that it comes to. -/
theorem Reaches.runFrom_eq {s t : σ} {done rest : List Instruction} {frame : Frame}
    (h : Reaches machine invoke m values s done rest frame t) :
    machine.runFrom invoke m values.toArray m.code.toList
        { locals := .replicate m.locals .undefined } s =
      machine.runFrom invoke m values.toArray rest frame t := by
  induction h with
  | start => rfl
  | step _ hleave hstep ih =>
    rw [ih, runFrom_cons hleave]
    simp only [Bind.bind, EStateM.bind, hstep]

end Machine

/-- The instruction closes a statement. -/
def Instruction.closes : Instruction → Bool
  | .setLocal _ | .pop | .leave => true
  | _ => false

/-- A place of a call that is in order. -/
structure Frame.InOrder (script : Script) (m : Method) (done rest : List Instruction)
    (frame : Frame) : Prop where
  code : m.code.toList = done ++ rest
  locals : frame.locals.size = m.locals
  /-- The stack is as high as is known before the code runs. -/
  height : heightOf script m 0 done = some frame.stack.length
  /-- The next instruction may stand where it does. -/
  next : ∀ i more, rest = i :: more → (i.height? script m frame.stack.length).isSome
  /-- The stack is empty between statements. -/
  boundary : (∀ i ∈ done.getLast?, i.closes) → frame.stack = []
  /-- An instruction that closes a statement finds one value. -/
  closing : ∀ i more, rest = i :: more → i.closes → frame.stack.length = 1

theorem Instruction.height?_closes {script : Script} {m : Method} {i : Instruction} {n k : Nat}
    (hi : i.height? script m n = some k) (hcloses : i.closes) : n = 1 ∧ k = 0 := by
  cases i with
  | setLocal slot =>
    obtain ⟨⟨hone, -⟩, ⟨⟩⟩ := Option.ite_none_right_eq_some.1 hi
    exact ⟨hone, rfl⟩
  | pop =>
    obtain ⟨hone, ⟨⟩⟩ := Option.ite_none_right_eq_some.1 hi
    exact ⟨hone, rfl⟩
  | leave =>
    obtain ⟨hone, ⟨⟩⟩ := Option.ite_none_right_eq_some.1 hi
    exact ⟨hone, rfl⟩
  | _ => exact absurd hcloses Bool.false_ne_true

/-- A place where the stack is as high as is known before the code runs is in order. -/
theorem Frame.InOrder.of_height {script : Script} {m : Method} {done rest : List Instruction}
    {frame : Frame} (hall : heightOf script m 0 m.code.toList = some 0)
    (hcode : m.code.toList = done ++ rest) (hlocals : frame.locals.size = m.locals)
    (hheight : heightOf script m 0 done = some frame.stack.length) :
    frame.InOrder script m done rest := by
  have hnext : ∀ i more, rest = i :: more → (i.height? script m frame.stack.length).isSome := by
    rintro i more rfl
    rw [hcode, heightOf_append, hheight, Option.bind_some, heightOf_cons] at hall
    exact Option.isSome_of_isSome_bind (by rw [hall]; rfl)
  refine ⟨hcode, hlocals, hheight, hnext, ?_, ?_⟩
  · intro hboundary
    rcases List.eq_nil_or_concat done with rfl | ⟨before, i, rfl⟩
    · exact List.length_eq_zero_iff.1 (Option.some.inj hheight).symm
    · -- the last instruction closed a statement, and left nothing
      rw [List.concat_eq_append, heightOf_append] at hheight
      obtain ⟨n, -, hi⟩ := Option.bind_eq_some_iff.1 hheight
      rw [heightOf_cons] at hi
      obtain ⟨k, hi, hk⟩ := Option.bind_eq_some_iff.1 hi
      obtain ⟨-, rfl⟩ := Instruction.height?_closes hi (hboundary i (by simp))
      exact List.length_eq_zero_iff.1 (Option.some.inj hk).symm
  · intro i more hrest hcloses
    obtain ⟨k, hk⟩ := Option.isSome_iff_exists.1 (hnext i more hrest)
    exact (Instruction.height?_closes hk hcloses).1

/-- Every place that a call comes to is in order. -/
theorem Machine.Reaches.inOrder {machine : Machine σ}
    {invoke : Method → List Value → EStateM ExecError σ Value} {m : Method} {values : List Value}
    (hs : machine.script.InOrder) (hm : m ∈ machine.script.methods)
    (hvalues : values.length = m.arity) {s t : σ} {done rest : List Instruction} {frame : Frame}
    (h : machine.Reaches invoke m values s done rest frame t) :
    frame.InOrder machine.script m done rest := by
  have hall := hs.heights m hm
  induction h with
  | start => exact .of_height hall rfl Array.size_replicate rfl
  | @step done rest i frame next t u hreach hleave hstep ih =>
    obtain ⟨n, hn⟩ := Option.isSome_iff_exists.1 (ih.next i rest rfl)
    -- what the step leaves does not depend on what calls do
    have hcalls : SafeCalls (fun _ _ => True) machine invoke m :=
      ⟨fun _ _ _ _ _ _ _ => ⟨fun _ _ _ _ => trivial, fun _ _ _ _ _ => trivial⟩,
        fun _ _ _ _ => ⟨fun _ _ _ _ => trivial, fun _ _ _ _ _ => trivial⟩⟩
    have hnext : next.Holds m n :=
      (safe_step ⟨rfl, ih.locals⟩ hn hleave hvalues hcalls).result t next u hstep
    refine .of_height hall (by rw [ih.code]; simp) hnext.2 ?_
    rw [heightOf_append, ih.height, Option.bind_some, heightOf_cons, hn, Option.bind_some, hnext.1]
    rfl

end ScriptFuzz
