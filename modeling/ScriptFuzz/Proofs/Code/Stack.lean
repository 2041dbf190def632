import ScriptFuzz.Proofs.Code.Declared
import ScriptFuzz.Proofs.Code.Translation

/-!
# The height of the stack

Code has no jumps, so how many values are on the stack at a place is known before it runs.
`Instruction.height?` says where an instruction may stand, and how high the stack is behind it;
`heightOf` goes through code with it. Compiled methods are in order
(`Source.Program.inOrder_script`):

- the stack is empty where a statement begins or ends, and holds one value where the instruction
  that closes it stands;
- operands are in range, and only earlier methods are called;
- the code before a call leaves exactly as many values as the called method takes.
-/

namespace ScriptFuzz

/-- The height of the stack behind an instruction that stands where it has height `n`, if the
instruction may stand there. -/
def Instruction.height? (script : Script) (m : Method) (n : Nat) : Instruction → Option Nat
  | .arith _ => if 2 ≤ n then some (n - 1) else none
  | .sizeOf => if 1 ≤ n then some n else none
  | .pushInt i => if i < m.ints.size then some (n + 1) else none
  | .pushText i => if i < m.texts.size then some (n + 1) else none
  | .getLocal slot => if slot < m.locals then some (n + 1) else none
  | .getArg i => if i < m.arity then some (n + 1) else none
  | .getTemplate i =>
    if ((m.texts[i]?).bind script.template?).isSome then some (n + 1) else none
  | .callHost i count => if i < m.texts.size ∧ count ≤ n then some (n - count + 1) else none
  | .call i =>
    match script.methods[i]? with
    | some callee =>
      if i < m.index ∧ i < Scope.limit ∧ callee.arity ≤ n then some (n - callee.arity + 1)
      else none
    | none => none
  -- these close a statement
  | .setLocal slot => if n = 1 ∧ slot < m.locals then some 0 else none
  | .pop => if n = 1 then some 0 else none
  | .leave => if n = 1 then some 0 else none
  -- these are not used
  | .callVoid _ => none
  | .lookup _ => none

/-- The height of the stack behind code that stands where it has height `n`, if all instructions
may stand where they do. -/
def heightOf (script : Script) (m : Method) (n : Nat) (code : List Instruction) : Option Nat :=
  code.foldlM (Instruction.height? script m) n

/-- The code before every call leaves exactly the arguments of the call. -/
def ExactCalls (script : Script) (m : Method) (code : List Instruction) : Prop :=
  ∀ (before : List Instruction) (i : Nat) (rest : List Instruction),
    code = before ++ .call i :: rest →
    ∃ callee earlier arguments, script.methods[i]? = some callee ∧
      before = earlier ++ arguments ∧ heightOf script m 0 arguments = some callee.arity

variable {script : Script} {m : Method}

@[simp] theorem heightOf_nil (n : Nat) : heightOf script m n [] = some n := rfl

@[simp] theorem heightOf_cons (n : Nat) (i : Instruction) (code : List Instruction) :
    heightOf script m n (i :: code) =
      (i.height? script m n).bind fun n => heightOf script m n code := by
  rw [heightOf, List.foldlM_cons]
  rfl

@[simp] theorem heightOf_append (n : Nat) (code more : List Instruction) :
    heightOf script m n (code ++ more) =
      (heightOf script m n code).bind fun n => heightOf script m n more := by
  rw [heightOf, List.foldlM_append]
  rfl

/-- A script whose methods are in order. -/
structure Script.InOrder (script : Script) : Prop where
  distinct : (script.methods.toList.map Method.name).Nodup
  index : ∀ (i : Nat) (m : Method), script.methods[i]? = some m → m.index = i
  heights : ∀ m ∈ script.methods, heightOf script m 0 m.code.toList = some 0
  calls : ∀ m ∈ script.methods, ExactCalls script m m.code.toList

/-! ## Calls -/

theorem ExactCalls.append {code more : List Instruction} (h : ExactCalls script m code)
    (h' : ExactCalls script m more) : ExactCalls script m (code ++ more) := by
  intro before i rest heq
  rcases List.append_eq_append_iff.1 heq with ⟨before', rfl, hmore⟩ | ⟨rest', hcode, hrest⟩
  · obtain ⟨callee, earlier, arguments, hcallee, rfl, hheight⟩ := h' before' i rest hmore
    exact ⟨callee, code ++ earlier, arguments, hcallee, (List.append_assoc ..).symm, hheight⟩
  · cases rest' with
    | nil =>
      -- the call is the first instruction behind `code`
      obtain rfl : code = before := by simpa using hcode
      obtain ⟨callee, earlier, arguments, hcallee, heq, hheight⟩ := h' [] i rest hrest.symm
      obtain ⟨rfl, rfl⟩ := List.nil_eq_append_iff.1 heq
      exact ⟨callee, code, [], hcallee, (List.append_nil _).symm, hheight⟩
    | cons j rest' =>
      obtain ⟨rfl, -⟩ := List.cons.inj hrest
      exact h before i rest' hcode

theorem exactCalls_singleton {i : Instruction} (hi : ∀ j, i ≠ .call j) :
    ExactCalls script m [i] := by
  intro before j rest heq
  cases before with
  | nil => exact absurd (List.cons.inj heq).1 (hi j)
  | cons k before => simp at heq

theorem ExactCalls.call {code : List Instruction} (h : ExactCalls script m code) {i : Nat}
    {callee : Method} (hi : script.methods[i]? = some callee)
    (hheight : heightOf script m 0 code = some callee.arity) :
    ExactCalls script m (code ++ [.call i]) := by
  intro before j rest heq
  rcases List.append_eq_append_iff.1 heq with ⟨before', rfl, hmore⟩ | ⟨rest', hcode, hrest⟩
  · cases before' with
    | nil =>
      obtain ⟨hij, -⟩ := List.cons.inj hmore
      cases hij
      exact ⟨callee, [], code, hi, by simp, hheight⟩
    | cons k before' => simp at hmore
  · cases rest' with
    | nil =>
      obtain ⟨hij, -⟩ := List.cons.inj hrest
      cases hij
      exact ⟨callee, [], code, hi, by simpa using hcode.symm, hheight⟩
    | cons k rest' =>
      obtain ⟨rfl, -⟩ := List.cons.inj hrest
      exact h before j rest' hcode

/-! ## The code of functions -/

namespace Source

variable {names : Naming}

/-- What the code of a method refers to is in range. -/
structure Placed (script : Script) (m : Method) (names : Naming) : Prop where
  params : names.params.length = m.arity
  functions : ∀ (i : Nat) (x : String) (arity : Nat), names.functions[i]? = some (x, arity) →
    i < m.index ∧ ∃ callee, script.methods[i]? = some callee ∧ callee.arity = arity
  templates : ∀ x ∈ names.templates, (script.template? x).isSome

/-- The code of an expression leaves one value more. -/
def Term.InOrder (script : Script) (m : Method) (code : List Instruction) : Prop :=
  (∀ n, heightOf script m n code = some (n + 1)) ∧ ExactCalls script m code

/-- The code of expressions leaves as many values as there are expressions. -/
theorem Term.inOrder_flatten {codes : List (List Instruction)}
    (h : ∀ code ∈ codes, InOrder script m code) :
    (∀ n, heightOf script m n codes.flatten = some (n + codes.length)) ∧
      ExactCalls script m codes.flatten := by
  induction codes with
  | nil =>
    constructor
    · intro n
      rfl
    · intro before i rest heq
      simp at heq
  | cons code codes ih =>
    obtain ⟨⟨hcode, hcalls⟩, hcodes⟩ := List.forall_mem_cons.1 h
    obtain ⟨hrest, hmore⟩ := ih hcodes
    refine ⟨?_, hcalls.append hmore⟩
    intro n
    rw [List.flatten_cons, heightOf_append, hcode, Option.bind_some, hrest, List.length_cons]
    congr 1
    omega

theorem Term.InOrder.of_singleton {i : Instruction} (hi : ∀ j, i ≠ .call j)
    (h : ∀ n, i.height? script m n = some (n + 1)) : InOrder script m [i] := by
  refine ⟨?_, exactCalls_singleton hi⟩
  intro n
  rw [heightOf_cons, h]
  rfl

theorem Term.Code.inOrder {e : Term} {code : List Instruction} (hc : Term.Code names m e code)
    (hv : e.Valid names) (hp : Placed script m names) (hlocals : names.locals.length ≤ m.locals) :
    Term.InOrder script m code := by
  induction hc with
  | int hi =>
    exact .of_singleton (by simp) fun n => if_pos ((Array.getElem?_eq_some_iff.1 hi).1)
  | text hi =>
    exact .of_singleton (by simp) fun n => if_pos ((Array.getElem?_eq_some_iff.1 hi).1)
  | slot hx =>
    have hlt := Naming.slot?_lt (Naming.resolve?_slot hx)
    exact .of_singleton (by simp) fun n => if_pos (Nat.lt_of_lt_of_le hlt hlocals)
  | argument hx =>
    have hlt := (List.idxOf?_eq_some_iff.1 (Naming.resolve?_argument hx).2).1
    exact .of_singleton (by simp) fun n => if_pos (hp.params ▸ hlt)
  | template hx hi =>
    have hmem := (Naming.resolve?_template hx).2.2
    exact .of_singleton (by simp) fun n => if_pos (by rw [hi]; exact hp.templates _ hmem)
  | @sizeof f arguments hf ha ih =>
    rw [Valid, Naming.Takes, hf] at hv
    obtain ⟨a, rfl⟩ := List.length_eq_one_iff.1 (by simpa using hv.2)
    obtain ⟨hheight, hcalls⟩ := ih a (by simp) (hv.1 _ (by simp))
    constructor
    · intro n
      simp [hheight, Instruction.height?]
    · have hsize : ExactCalls script m [.sizeOf] := exactCalls_singleton (by simp)
      simpa using hcalls.append hsize
  | @function f i arguments hf ha ih =>
    rw [Valid, Naming.Takes, hf] at hv
    obtain ⟨⟨x, arity⟩, hi, harity⟩ := Option.map_eq_some_iff.1 hv.2.1
    obtain ⟨hindex, callee, hcallee, hlen⟩ := hp.functions i x arity hi
    have hall : ∀ code ∈ arguments.map (·.2), InOrder script m code :=
      List.forall_mem_map.2 fun a h => ih a h (hv.1 _ (List.mem_map_of_mem h))
    obtain ⟨hheight, hcalls⟩ := Term.inOrder_flatten hall
    have harity' : callee.arity = (arguments.map (·.2)).length := by
      rw [hlen, ← Nat.add_zero arity]
      simpa using harity
    refine ⟨?_, hcalls.call hcallee ?_⟩
    · intro n
      rw [heightOf_append, hheight, Option.bind_some, heightOf_cons, Instruction.height?]
      simp [hcallee, hindex, hv.2.2, harity']
    · rw [hheight, harity', Nat.zero_add]
  | @host f i arguments hf hi ha ih =>
    rw [Valid] at hv
    have hall : ∀ code ∈ arguments.map (·.2), InOrder script m code :=
      List.forall_mem_map.2 fun a h => ih a h (hv.1 _ (List.mem_map_of_mem h))
    obtain ⟨hheight, hcalls⟩ := Term.inOrder_flatten hall
    refine ⟨?_, hcalls.append (exactCalls_singleton (by simp))⟩
    intro n
    rw [heightOf_append, hheight, Option.bind_some, heightOf_cons, Instruction.height?]
    simp [(Array.getElem?_eq_some_iff.1 hi).1]
  | arith hl hr ihl ihr =>
    rw [Valid] at hv
    obtain ⟨hheightl, hcallsl⟩ := ihl hv.1
    obtain ⟨hheightr, hcallsr⟩ := ihr hv.2
    refine ⟨?_, (hcallsl.append hcallsr).append (exactCalls_singleton (by simp))⟩
    intro n
    simp [hheightl, hheightr, Instruction.height?]

/-- The instruction that closes a statement finds one value and leaves none. -/
theorem Statement.height?_closing {s : Statement} (hv : s.Valid names)
    (hlocals : (names.behind s).locals.length ≤ m.locals) :
    (s.closing names).height? script m 1 = some 0 := by
  cases s with
  | declare x e => exact if_pos ⟨rfl, hlocals⟩
  | assign x e =>
    obtain ⟨slot, hslot⟩ := Option.isSome_iff_exists.1 (Naming.slot?_isSome_iff.2 hv.2)
    rw [closing, hslot]
    exact if_pos ⟨rfl, Nat.lt_of_lt_of_le (Naming.slot?_lt hslot) hlocals⟩
  | result e => rfl
  | evaluate e => rfl

/-- The code of a body leaves the stack as it was. -/
theorem Statement.CodeAll.inOrder {body : List Statement} {code : List Instruction}
    (hc : Statement.CodeAll m names body code) (hv : Statement.AllValid names body)
    (hp : Placed script m names) (hlocals : Statement.slots names body ≤ m.locals) :
    heightOf script m 0 code = some 0 ∧ ExactCalls script m code := by
  induction hc with
  | nil =>
    constructor
    · rfl
    · intro before i rest heq
      simp at heq
  | @cons names s body code more hcode hb ih =>
    obtain ⟨hvs, hvb⟩ := hv
    have hbehind := Nat.le_trans (Statement.length_le_slots (names.behind s) body) hlocals
    have hle : names.locals.length ≤ m.locals := by
      refine Nat.le_trans ?_ hbehind
      cases s <;> simp [Naming.behind, Naming.declare]
    have hp' : Placed script m (names.behind s) := by
      cases s <;> exact { hp with }
    obtain ⟨hheight, hcalls⟩ := hcode.inOrder hvs.1 hp hle
    obtain ⟨hmore, hcallsmore⟩ := ih hvb hp' hlocals
    have hclosing : (s.closing names).height? script m 1 = some 0 :=
      Statement.height?_closing hvs hbehind
    constructor
    · rw [heightOf_append, hheight, Option.bind_some, heightOf_cons, hclosing, Option.bind_some,
        hmore]
    · have hone : ExactCalls script m [s.closing names] :=
        exactCalls_singleton (by cases s <;> simp [Statement.closing])
      simpa using (hcalls.append hone).append hcallsmore

/-! ## Scripts -/

namespace Program

/-- The method of a function refers to what is declared before the function. -/
theorem placed_method {before after : Program} {f : Function}
    (h : Valid (before ++ .function f :: after)) :
    Placed (Program.script (before ++ .function f :: after)) (before.method f)
      ((declared before).names.enter f.params) where
  params := rfl
  functions i x arity hi := by
    have hsound : (declared before).Sound := sound_declared h.split.1
    obtain ⟨callee, hcallee, hscript, harity⟩ := (carries_script h).1.exists_method hsound hi
    exact ⟨(Array.getElem?_eq_some_iff.1 hcallee).1, callee, hscript, harity⟩
  templates x hx := by
    have hsound : (declared before).Sound := sound_declared h.split.1
    obtain ⟨t, -, ht⟩ := (carries_script h).1.exists_template hsound hx
    rw [ht]
    rfl

theorem inOrder_method {before after : Program} {f : Function}
    (h : Valid (before ++ .function f :: after)) :
    heightOf (Program.script (before ++ .function f :: after)) (before.method f) 0
        (before.method f).code.toList = some 0 ∧
      ExactCalls (Program.script (before ++ .function f :: after)) (before.method f)
        (before.method f).code.toList := by
  have hf := h.split.2.1
  exact (Function.code_method hf _).inOrder hf.body (placed_method h) (Nat.le_refl _)

/-- The methods of a script that keeps the rules are in order. -/
theorem inOrder_script {p : Program} (h : p.Valid) : p.script.InOrder where
  distinct := nodup_script h
  index := (sound_declared h).index
  heights m hm := by
    obtain ⟨i, hi⟩ := Array.getElem?_of_mem hm
    obtain ⟨before, f, after, rfl, rfl⟩ := exists_function hi
    exact (inOrder_method h).1
  calls m hm := by
    obtain ⟨i, hi⟩ := Array.getElem?_of_mem hm
    obtain ⟨before, f, after, rfl, rfl⟩ := exists_function hi
    exact (inOrder_method h).2

end Program

end Source

end ScriptFuzz
