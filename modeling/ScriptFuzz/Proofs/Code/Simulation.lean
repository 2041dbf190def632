import ScriptFuzz.Proofs.Code.Translation
import ScriptFuzz.Proofs.Language.Meaning

/-!
# Running the code of a body

The code of an expression, with more code behind it, runs as the expression is evaluated: the value
goes to the stack, and the rest of the code runs (`Term.Code.runFrom_eq`). From this the code of a
body runs as the body does (`Statement.CodeAll.runFrom_eq`).

Two relations tie the machine to the evaluator. `Linked` is about what does not change during a
call: what the methods, templates and host functions are. `Shows` is about the variables: the slots
hold what the variables in sight hold.
-/

namespace ScriptFuzz

open Source

/-! ## The machine -/

/-- Arguments that are on the stack are taken from it in their order. -/
theorem Frame.popArguments_reverse (vs stack : List Value) (locals : Array Value) :
    popArguments ⟨vs.reverse ++ stack, locals⟩ vs.length = .ok (vs, ⟨stack, locals⟩) := by
  have hlt : ¬(vs.reverse ++ stack).length < vs.length := by simp
  rw [popArguments]
  dsimp only
  rw [if_neg hlt, List.take_left' List.length_reverse, List.drop_left' List.length_reverse,
    List.reverse_reverse]

namespace Machine

variable {σ : Type} {machine : Machine σ}
  {invoke : Method → List Value → EStateM ExecError σ Value} {m : Method} {arguments : Array Value}
  {code : List Instruction} {stack : List Value} {locals : Array Value}

theorem runFrom_pushInt {i : Nat} {n : Int64} (hi : m.ints[i]? = some n) :
    machine.runFrom invoke m arguments (.pushInt i :: code) ⟨stack, locals⟩ =
      machine.runFrom invoke m arguments code ⟨.int n :: stack, locals⟩ := by
  simp only [runFrom, step, hi, operand, pure_bind, Frame.push]

theorem runFrom_pushText {i : Nat} {s : String} (hi : m.texts[i]? = some s) :
    machine.runFrom invoke m arguments (.pushText i :: code) ⟨stack, locals⟩ =
      machine.runFrom invoke m arguments code ⟨.text s :: stack, locals⟩ := by
  simp only [runFrom, step, hi, operand, pure_bind, Frame.push]

theorem runFrom_getLocal {slot : Nat} {v : Value} (hi : locals[slot]? = some v) :
    machine.runFrom invoke m arguments (.getLocal slot :: code) ⟨stack, locals⟩ =
      machine.runFrom invoke m arguments code ⟨v :: stack, locals⟩ := by
  simp only [runFrom, step, hi, operand, pure_bind, Frame.push]

theorem runFrom_getArg {i : Nat} {v : Value} (hi : arguments[i]? = some v) :
    machine.runFrom invoke m arguments (.getArg i :: code) ⟨stack, locals⟩ =
      machine.runFrom invoke m arguments code ⟨v :: stack, locals⟩ := by
  simp only [runFrom, step, hi, operand, pure_bind, Frame.push]

theorem runFrom_getTemplate {i : Nat} {x : String} {t : Template} (hi : m.texts[i]? = some x)
    (ht : machine.script.template? x = some t) :
    machine.runFrom invoke m arguments (.getTemplate i :: code) ⟨stack, locals⟩ =
      get >>= fun s =>
        ofExcept ((t.generate (machine.mutators s)).mapError (.template x)) >>= fun bytes =>
          machine.runFrom invoke m arguments code ⟨.bytes bytes :: stack, locals⟩ := by
  simp only [runFrom, step, hi, operand, ht, pure_bind, bind_assoc, Frame.push]

theorem runFrom_sizeOf (v : Value) :
    machine.runFrom invoke m arguments (.sizeOf :: code) ⟨v :: stack, locals⟩ =
      ofExcept (v.size.mapError .arith) >>= fun size =>
        machine.runFrom invoke m arguments code ⟨size :: stack, locals⟩ := by
  simp only [runFrom, step, Frame.pop, ofExcept, pure_bind, bind_assoc, Frame.push]

theorem runFrom_arith (op : Arith) (left right : Value) :
    machine.runFrom invoke m arguments (.arith op :: code) ⟨right :: left :: stack, locals⟩ =
      ofExcept ((left.arith op right).mapError .arith) >>= fun v =>
        machine.runFrom invoke m arguments code ⟨v :: stack, locals⟩ := by
  simp only [runFrom, step, Frame.pop, ofExcept, pure_bind, bind_assoc, Frame.push]

/-- The arguments of a call are on the stack, the last one on top. -/
theorem runFrom_call {i : Nat} {callee : Method} {vs : List Value}
    (hi : machine.script.methods[i]? = some callee) (hlen : callee.arity = vs.length) :
    machine.runFrom invoke m arguments (.call i :: code) ⟨vs.reverse ++ stack, locals⟩ =
      invoke callee vs >>= fun v =>
        machine.runFrom invoke m arguments code ⟨v :: stack, locals⟩ := by
  simp only [runFrom, step, hi, operand, pure_bind, hlen, Frame.popArguments_reverse, ofExcept,
    bind_assoc, Frame.push]

theorem runFrom_callHost {i : Nat} {f : String} {vs : List Value} (hi : m.texts[i]? = some f) :
    machine.runFrom invoke m arguments (.callHost i vs.length :: code)
        ⟨vs.reverse ++ stack, locals⟩ =
      (match machine.handlers f with
        | none => throw (.unknownFunction f)
        | some .busy => throw (.functionBusy f)
        | some (.ready function) => function vs) >>= fun v =>
        machine.runFrom invoke m arguments code ⟨v :: stack, locals⟩ := by
  simp only [runFrom, step, hi, operand, pure_bind, Frame.popArguments_reverse, ofExcept,
    Frame.push]
  cases machine.handlers f with
  | none => rfl
  | some handler =>
    cases handler with
    | busy => rfl
    | ready function => simp only [pure_bind, bind_assoc]

theorem runFrom_setLocal {slot : Nat} (hlt : slot < locals.size) (v : Value) :
    machine.runFrom invoke m arguments (.setLocal slot :: code) ⟨v :: stack, locals⟩ =
      machine.runFrom invoke m arguments code ⟨stack, locals.setIfInBounds slot v⟩ := by
  simp only [runFrom, step, Frame.pop, ofExcept, pure_bind, if_pos hlt]

end Machine

namespace Source

/-! ## The variables -/

theorem Env.lookup_assign (env : Env) (x y : String) (v : Value) :
    (env.assign x v).lookup y =
      if y = x ∧ (env.lookup x).isSome then some v else env.lookup y := by
  induction env with
  | nil => simp [Env.assign]
  | cons entry env ih =>
    obtain ⟨z, w⟩ := entry
    rw [Env.assign]
    by_cases hz : x = z
    · subst hz
      by_cases hy : y = x
      · subst hy
        simp
      · simp [List.lookup_cons, hy, beq_false_of_ne hy]
    · rw [if_neg hz]
      by_cases hy : y = z
      · subst hy
        have : ¬(y = x) := fun h => hz h.symm
        simp [this]
      · simp only [List.lookup_cons, beq_false_of_ne hy, beq_false_of_ne hz]
        exact ih

theorem lookup_zip {params : List String} {arguments : List Value} {x : String}
    (h : params.length = arguments.length) :
    (params.zip arguments).lookup x = (params.idxOf? x).bind (arguments[·]?) := by
  induction params generalizing arguments with
  | nil => rfl
  | cons y params ih =>
    obtain _ | ⟨v, arguments⟩ := arguments
    · cases h
    · rw [List.zip_cons_cons, List.lookup_cons, List.idxOf?_cons]
      by_cases hxy : x = y
      · simp [hxy]
      · rw [beq_false_of_ne hxy, beq_false_of_ne (Ne.symm hxy), ih (Nat.succ.inj h)]
        cases params.idxOf? x <;> rfl

/-- The slots and the arguments of a call hold what is in sight under the names. -/
structure Shows (names : Naming) (arguments : List Value) (env : Env) (locals : Array Value) :
    Prop where
  arity : names.params.length = arguments.length
  slot : ∀ x i, Naming.slot? names.locals x = some i →
    ∃ v, env.lookup x = some v ∧ locals[i]? = some v
  argument : ∀ x, Naming.slot? names.locals x = none →
    env.lookup x = (names.params.zip arguments).lookup x

namespace Shows

variable {names : Naming} {arguments : List Value} {env : Env} {locals : Array Value}

/-- At the start of a call there are only the arguments. -/
theorem enter {params : List String} (h : params.length = arguments.length) :
    Shows (names.enter params) arguments (params.zip arguments) locals where
  arity := h
  slot _ _ hx := by cases hx
  argument _ _ := rfl

/-- A new variable takes the next slot. -/
theorem declare (h : Shows names arguments env locals) (x : String) (v : Value)
    (hlt : names.locals.length < locals.size) :
    Shows (names.declare x) arguments ((x, v) :: env)
      (locals.setIfInBounds names.locals.length v) where
  arity := h.arity
  slot y i hy := by
    rw [Naming.declare, Naming.slot?] at hy
    rw [List.lookup_cons]
    by_cases hxy : y = x
    · rw [if_pos hxy] at hy
      cases hy
      exact ⟨v, by simp [hxy], by simp [hlt]⟩
    · rw [if_neg hxy] at hy
      obtain ⟨w, hw, hi⟩ := h.slot y i hy
      have hne : names.locals.length ≠ i := Nat.ne_of_gt (Naming.slot?_lt hy)
      exact ⟨w, by simp [beq_false_of_ne hxy, hw], by
        rw [Array.getElem?_setIfInBounds_ne hne, hi]⟩
  argument y hy := by
    rw [Naming.declare, Naming.slot?] at hy
    by_cases hxy : y = x
    · simp [hxy] at hy
    · rw [if_neg hxy] at hy
      rw [List.lookup_cons, beq_false_of_ne hxy]
      exact h.argument y hy

/-- Another value goes to the slot of the variable in sight. -/
theorem assign (h : Shows names arguments env locals) {x : String} {slot : Nat} (v : Value)
    (hx : Naming.slot? names.locals x = some slot) :
    Shows names arguments (env.assign x v) (locals.setIfInBounds slot v) where
  arity := h.arity
  slot y i hy := by
    obtain ⟨w, hw, hslot⟩ := h.slot x slot hx
    rw [Env.lookup_assign]
    by_cases hxy : y = x
    · subst hxy
      rw [hx] at hy
      cases hy
      have hlt := (Array.getElem?_eq_some_iff.1 hslot).1
      exact ⟨v, by simp [hw], by simp [hlt]⟩
    · obtain ⟨u, hu, hi⟩ := h.slot y i hy
      have hne : slot ≠ i := fun heq => hxy (Naming.slot?_inj hy (heq ▸ hx))
      exact ⟨u, by simp [hxy, hu], by rw [Array.getElem?_setIfInBounds_ne hne, hi]⟩
  argument y hy := by
    have hxy : y ≠ x := by
      rintro rfl
      cases hx.symm.trans hy
    rw [Env.lookup_assign, if_neg (by simp [hxy])]
    exact h.argument y hy

/-- Under the name of a variable its slot is in sight. -/
theorem lookup_slot (h : Shows names arguments env locals) {x : String} {i : Nat}
    (hx : names.resolve? x = some (.slot i)) :
    ∃ v, env.lookup x = some v ∧ locals[i]? = some v :=
  h.slot x i (Naming.resolve?_slot hx)

/-- Under the name of a parameter the argument is in sight. -/
theorem lookup_argument (h : Shows names arguments env locals) {x : String} {i : Nat}
    (hx : names.resolve? x = some (.argument i)) :
    ∃ v, env.lookup x = some v ∧ arguments[i]? = some v := by
  obtain ⟨hslot, hidx⟩ := Naming.resolve?_argument hx
  have hlt : i < arguments.length := by
    rw [← h.arity]
    exact (List.idxOf?_eq_some_iff.1 hidx).1
  refine ⟨arguments[i], ?_, List.getElem?_eq_getElem hlt⟩
  rw [h.argument x hslot, lookup_zip h.arity, hidx, Option.bind_some,
    List.getElem?_eq_getElem hlt]

/-- Under the name of a template nothing is in sight. -/
theorem lookup_template (h : Shows names arguments env locals) {x : String}
    (hx : names.resolve? x = some .template) : env.lookup x = none ∧ x ∈ names.templates := by
  obtain ⟨hslot, hidx, hmem⟩ := Naming.resolve?_template hx
  rw [h.argument x hslot, lookup_zip h.arity, hidx]
  exact ⟨rfl, hmem⟩

end Shows

/-! ## Methods, templates and the host -/

variable {σ : Type} {machine : Machine σ} {names : Naming} {ctx : Context σ}

/-- The methods and templates of a machine are the functions and templates declared before a place,
where `invoke` calls methods. -/
structure Linked (machine : Machine σ) (invoke : Method → List Value → EStateM ExecError σ Value)
    (names : Naming) (ctx : Context σ) : Prop where
  mutators : machine.mutators = ctx.mutators
  handlers : machine.handlers = ctx.handlers
  functions : names.functions.map (·.1) = ctx.functions.map (·.1)
  methods : ∀ (i : Nat) (x : String) (arity : Nat), i < Scope.limit →
    names.functions[i]? = some (x, arity) →
    ∃ callee function, machine.script.methods[i]? = some callee ∧ callee.arity = arity ∧
      ctx.functions[i]? = some function ∧
      ∀ values : List Value, values.length = arity → invoke callee values = function.2 values
  templates : ∀ x ∈ names.templates,
    ∃ t, ctx.templates.named.lookup x = some t ∧ machine.script.template? x = some t

theorem Linked.behind {invoke : Method → List Value → EStateM ExecError σ Value}
    (h : Linked machine invoke names ctx) (s : Statement) :
    Linked machine invoke (names.behind s) ctx := by
  cases s <;> exact { h with }

/-- Looking for a name among functions by number, and among their meanings. -/
theorem lookup_of_findIdx? {α β : Type} {f : String} {xs : List (String × α)}
    {ys : List (String × β)} (h : xs.map (·.1) = ys.map (·.1)) :
    ys.lookup f = (xs.findIdx? (·.1 == f)).bind fun i => (ys[i]?).map (·.2) := by
  induction xs generalizing ys with
  | nil =>
    obtain rfl := List.map_eq_nil_iff.1 h.symm
    rfl
  | cons x xs ih =>
    obtain ⟨y, ys, rfl, hy, hys⟩ := List.map_eq_cons_iff.1 h.symm
    obtain ⟨y, v⟩ := y
    dsimp only at hy
    rw [List.lookup_cons, List.findIdx?_cons, ← hy]
    by_cases hf : f = y
    · simp [hf]
    · rw [beq_false_of_ne hf, beq_false_of_ne (Ne.symm hf), ih hys.symm]
      cases xs.findIdx? (·.1 == f) <;> rfl

namespace Context

theorem call_sizeof {f : String} (hf : names.callee f = .sizeof) (v : Value) :
    ctx.call f [v] = Machine.ofExcept (v.size.mapError .arith) := by
  rw [call, if_pos (Naming.callee_sizeof hf)]

theorem call_function {f : String} {i : Nat} (hf : names.callee f = .function i)
    (h : names.functions.map (·.1) = ctx.functions.map (·.1))
    {function : String × (List Value → EStateM ExecError σ Value)}
    (hi : ctx.functions[i]? = some function) (values : List Value) :
    ctx.call f values = function.2 values := by
  obtain ⟨hne, hfind⟩ := Naming.callee_function hf
  unfold call
  rw [if_neg hne, lookup_of_findIdx? h, hfind, Option.bind_some, hi]
  rfl

theorem call_host {f : String} (hf : names.callee f = .host)
    (h : names.functions.map (·.1) = ctx.functions.map (·.1)) (values : List Value) :
    ctx.call f values =
      match ctx.handlers f with
      | none => throw (.unknownFunction f)
      | some .busy => throw (.functionBusy f)
      | some (.ready function) => function values := by
  obtain ⟨hne, hfind⟩ := Naming.callee_host hf
  unfold call
  rw [if_neg hne, lookup_of_findIdx? h, hfind]
  rfl

end Context

/-! ## Expressions -/

variable {invoke : Method → List Value → EStateM ExecError σ Value} {m : Method}
  {values : List Value} {env : Env} {locals : Array Value}

/-- What goes on with the values of expressions only has to work for as many values. -/
theorem Term.evalAll_bind_congr {α : Type} {es : List Term}
    {k k' : List Value → EStateM ExecError σ α}
    (h : ∀ vs : List Value, vs.length = es.length → k vs = k' vs) :
    (Term.evalAll ctx env es >>= k) = Term.evalAll ctx env es >>= k' := by
  induction es generalizing k k' with
  | nil =>
    rw [evalAll, pure_bind, pure_bind]
    exact h [] rfl
  | cons e es ih =>
    simp only [evalAll, bind_assoc, pure_bind]
    congr 1
    funext v
    exact ih fun vs hvs => h (v :: vs) (congrArg Nat.succ hvs)

/-- Code of expressions, one after the other, leaves their values on the stack. -/
theorem Term.runFrom_flatten {arguments : List (Term × List Instruction)}
    (h : ∀ a ∈ arguments, ∀ (rest : List Instruction) (stack : List Value),
      machine.runFrom invoke m values.toArray (a.2 ++ rest) ⟨stack, locals⟩ =
        a.1.eval ctx env >>= fun v =>
          machine.runFrom invoke m values.toArray rest ⟨v :: stack, locals⟩)
    (rest : List Instruction) (stack : List Value) :
    machine.runFrom invoke m values.toArray ((arguments.map (·.2)).flatten ++ rest)
        ⟨stack, locals⟩ =
      Term.evalAll ctx env (arguments.map (·.1)) >>= fun vs =>
        machine.runFrom invoke m values.toArray rest ⟨vs.reverse ++ stack, locals⟩ := by
  induction arguments generalizing stack with
  | nil => simp [evalAll]
  | cons a arguments ih =>
    obtain ⟨ha, harguments⟩ := List.forall_mem_cons.1 h
    rw [List.map_cons, List.flatten_cons, List.append_assoc, ha, List.map_cons, evalAll]
    simp only [bind_assoc, pure_bind, List.reverse_cons, List.append_assoc, List.singleton_append]
    congr 1
    funext v
    exact ih harguments (v :: stack)

/-- The code of an expression leaves its value on the stack. -/
theorem Term.Code.runFrom_eq {e : Term} {code : List Instruction} (hc : Term.Code names m e code)
    (hv : e.Valid names) (hl : Linked machine invoke names ctx) (hs : Shows names values env locals)
    (rest : List Instruction) (stack : List Value) :
    machine.runFrom invoke m values.toArray (code ++ rest) ⟨stack, locals⟩ =
      e.eval ctx env >>= fun v =>
        machine.runFrom invoke m values.toArray rest ⟨v :: stack, locals⟩ := by
  induction hc generalizing rest stack with
  | int hi =>
    rw [eval, pure_bind, List.singleton_append, Machine.runFrom_pushInt hi]
  | text hi =>
    rw [eval, pure_bind, List.singleton_append, Machine.runFrom_pushText hi]
  | slot hx =>
    obtain ⟨v, hlookup, hi⟩ := hs.lookup_slot hx
    rw [eval, Context.read, hlookup, pure_bind, List.singleton_append,
      Machine.runFrom_getLocal hi]
  | argument hx =>
    obtain ⟨v, hlookup, hi⟩ := hs.lookup_argument hx
    rw [eval, Context.read, hlookup, pure_bind, List.singleton_append,
      Machine.runFrom_getArg (by rw [List.getElem?_toArray, hi])]
  | template hx hi =>
    obtain ⟨hlookup, hmem⟩ := hs.lookup_template hx
    obtain ⟨t, hctx, hscript⟩ := hl.templates _ hmem
    rw [eval, Context.read, hlookup, List.singleton_append,
      Machine.runFrom_getTemplate hi hscript]
    simp only [Context.serialize, hctx, hl.mutators, bind_assoc, pure_bind]
  | @sizeof f arguments hf ha ih =>
    rw [Valid, Naming.Takes, hf] at hv
    obtain ⟨a, rfl⟩ := List.length_eq_one_iff.1 (by simpa using hv.2)
    rw [List.append_assoc, runFrom_flatten fun a ha => ih a ha (hv.1 _ (List.mem_map_of_mem ha)),
      eval, bind_assoc]
    refine evalAll_bind_congr ?_
    intro vs hvs
    obtain ⟨v, rfl⟩ := List.length_eq_one_iff.1 hvs
    rw [Context.call_sizeof hf]
    exact Machine.runFrom_sizeOf v
  | @function f i arguments hf ha ih =>
    rw [Valid, Naming.Takes, hf] at hv
    obtain ⟨⟨x, arity⟩, hi, harity⟩ := Option.map_eq_some_iff.1 hv.2.1
    obtain ⟨callee, function, hcallee, hlen, hfunction, hinvoke⟩ :=
      hl.methods i x arity hv.2.2 hi
    rw [List.append_assoc, runFrom_flatten fun a ha => ih a ha (hv.1 _ (List.mem_map_of_mem ha)),
      eval, bind_assoc]
    refine evalAll_bind_congr ?_
    intro vs hvs
    have harity' : arity = vs.length := by rw [hvs, ← harity]
    rw [Context.call_function hf hl.functions hfunction, ← hinvoke vs harity'.symm]
    exact Machine.runFrom_call hcallee (hlen.trans harity')
  | @host f i arguments hf hi ha ih =>
    rw [Valid] at hv
    rw [List.append_assoc, runFrom_flatten fun a ha => ih a ha (hv.1 _ (List.mem_map_of_mem ha)),
      eval, bind_assoc]
    refine evalAll_bind_congr ?_
    intro vs hvs
    rw [List.length_map] at hvs
    rw [Context.call_host hf hl.functions, ← hl.handlers, ← hvs]
    exact Machine.runFrom_callHost hi
  | arith hl hr ihl ihr =>
    rw [Valid] at hv
    rw [List.append_assoc, List.append_assoc, ihl hv.1, eval, bind_assoc]
    congr 1
    funext left
    rw [ihr hv.2, bind_assoc]
    congr 1
    funext right
    exact Machine.runFrom_arith _ left right

/-! ## Bodies -/

/-- The code of a body runs as the body does. -/
theorem Statement.CodeAll.runFrom_eq {body : List Statement} {code : List Instruction}
    (hc : Statement.CodeAll m names body code) (hv : Statement.AllValid names body)
    (hl : Linked machine invoke names ctx) (hs : Shows names values env locals)
    (hroom : Statement.slots names body ≤ locals.size) :
    machine.runFrom invoke m values.toArray code ⟨[], locals⟩ =
      Statement.runAll ctx env body := by
  induction hc generalizing env locals with
  | nil names => rfl
  | @cons names s body code more hcode hb ih =>
    obtain ⟨hvs, hvb⟩ := hv
    have hle := Statement.length_le_slots (names.behind s) body
    rw [hcode.runFrom_eq hvs.1 hl hs]
    cases s with
    | declare x e =>
      have hlt : names.locals.length < locals.size := Nat.lt_of_lt_of_le hle hroom
      rw [runAll]
      congr 1
      funext v
      rw [closing, Machine.runFrom_setLocal hlt]
      refine ih hvb (hl.behind _) (hs.declare x v hlt) ?_
      rw [Array.size_setIfInBounds]
      exact hroom
    | assign x e =>
      obtain ⟨slot, hslot⟩ := Option.isSome_iff_exists.1 (Naming.slot?_isSome_iff.2 hvs.2)
      have hlt : slot < locals.size :=
        Nat.lt_of_lt_of_le (Nat.lt_of_lt_of_le (Naming.slot?_lt hslot) hle) hroom
      rw [runAll]
      congr 1
      funext v
      rw [closing, hslot, Option.getD_some, Machine.runFrom_setLocal hlt]
      refine ih hvb (hl.behind _) (hs.assign v hslot) ?_
      rw [Array.size_setIfInBounds]
      exact hroom
    | result e =>
      rw [runAll]
      simp only [closing, Machine.runFrom_leave]
      exact bind_pure _
    | evaluate e =>
      rw [runAll]
      congr 1
      funext v
      rw [closing, Machine.runFrom_pop]
      exact ih hvb (hl.behind _) hs hroom

/-- The code of a function runs as the function is called. -/
theorem Function.runFrom_eq {f : Function} {index : Nat} (hv : f.Valid names)
    (hl : Linked machine invoke names ctx) (hlen : values.length = f.params.length) :
    machine.runFrom invoke (f.method names index) values.toArray
        (f.method names index).code.toList
        { locals := .replicate (f.method names index).locals .undefined } =
      f.call ctx values := by
  refine (Function.code_method hv index).runFrom_eq hv.body ?_ (.enter hlen.symm) ?_
  · exact { hl with }
  · rw [Array.size_replicate]
    exact Nat.le_refl _

end Source

end ScriptFuzz
