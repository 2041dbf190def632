import ScriptFuzz.Proofs.Code.Declared
import ScriptFuzz.Proofs.Code.Simulation

/-!
# Running the functions of a script

A call of a function on the machine does what the function means (`Function.run_eq`,
`Program.run_script`). A function only calls functions declared before it, so the induction is on
the declarations: behind each of them the methods so far run like the functions so far (`Runs`). How
deep calls may nest is part of that: the number of a method bounds the depth of its calls.
-/

namespace ScriptFuzz.Source

variable {σ : Type} {machine : Machine σ} {d : Declared} {ctx : Context σ}

/-- The methods of a place run like the functions of the place, if calls may nest deep enough. -/
structure Runs (machine : Machine σ) (d : Declared) (ctx : Context σ) : Prop where
  mutators : machine.mutators = ctx.mutators
  handlers : machine.handlers = ctx.handlers
  templates : d.templates = ctx.templates
  functions : d.names.functions.map (·.1) = ctx.functions.map (·.1)
  methods : ∀ (i : Nat) (m : Method)
    (function : String × (List Value → EStateM ExecError σ Value)),
    d.methods[i]? = some m → ctx.functions[i]? = some function →
    ∀ depth, min i Scope.limit < depth → ∀ values : List Value, values.length = m.arity →
      machine.run depth m values = function.2 values

theorem Runs.length_eq (h : Runs machine d ctx) (hd : d.Sound) :
    ctx.functions.length = d.methods.size := by
  have := congrArg List.length h.functions
  simpa [hd.functions] using this.symm

/-- Within a call that may nest deep enough, the methods declared before are linked to the functions
declared before. -/
theorem Runs.linked (h : Runs machine d ctx) (hd : d.Sound) (hc : Carries machine.script d)
    {depth : Nat} (hdepth : min d.methods.size Scope.limit ≤ depth) :
    Linked machine (machine.run depth) d.names ctx where
  mutators := h.mutators
  handlers := h.handlers
  functions := h.functions
  methods i x arity hlimit hi := by
    obtain ⟨m, hm, hscript, harity⟩ := hc.exists_method hd hi
    have hlt : i < d.methods.size := (Array.getElem?_eq_some_iff.1 hm).1
    have hlt' : i < ctx.functions.length := by rwa [h.length_eq hd]
    refine ⟨m, ctx.functions[i], hscript, harity, List.getElem?_eq_getElem hlt', ?_⟩
    intro values hvalues
    exact h.methods i m _ hm (List.getElem?_eq_getElem hlt') depth (by omega) values
      (hvalues.trans harity.symm)
  templates x hx := by
    obtain ⟨t, ht, hscript⟩ := hc.exists_template hd hx
    exact ⟨t, h.templates ▸ ht, hscript⟩

/-- A call of a function on the machine does what the function means. -/
theorem Function.run_eq {f : Function} (hv : f.Valid d.names) (h : Runs machine d ctx)
    (hd : d.Sound) (hc : Carries machine.script d) {depth : Nat}
    (hdepth : min d.methods.size Scope.limit < depth) {values : List Value}
    (hlen : values.length = f.params.length) :
    machine.run depth (f.method d.names d.methods.size) values = f.call ctx values := by
  obtain ⟨depth, rfl⟩ := Nat.exists_eq_add_of_lt (Nat.zero_lt_of_lt hdepth)
  exact Function.runFrom_eq hv (h.linked hd hc (by omega)) hlen

theorem Runs.add {declaration : Declaration} (h : Runs machine d ctx) (hd : d.Sound)
    (hc : Carries machine.script d) (hv : declaration.Valid d.names) :
    Runs machine (d.add declaration) (ctx.add declaration) where
  mutators := h.mutators
  handlers := h.handlers
  templates := congrArg (Templates.add · declaration) h.templates
  functions := by
    cases declaration with
    | template => exact h.functions
    | function f =>
      simp only [Declared.add, Naming.add, Context.add, List.map_append, h.functions]
      rfl
  methods i m function hm hi depth hdepth values hlen := by
    cases declaration with
    | template => exact h.methods i m function hm hi depth hdepth values hlen
    | function f =>
      simp only [Declared.add] at hm
      simp only [Context.add] at hi
      rw [Array.getElem?_push] at hm
      split at hm
      · next hsize =>
        cases hm
        subst hsize
        rw [← h.length_eq hd, List.getElem?_concat_length] at hi
        cases hi
        exact Function.run_eq hv h hd hc hdepth hlen
      · next hsize =>
        have hlt : i < ctx.functions.length := by
          rw [h.length_eq hd]
          exact (Array.getElem?_eq_some_iff.1 hm).1
        rw [List.getElem?_append_left hlt] at hi
        exact h.methods i m function hm hi depth hdepth values hlen

/-- Behind the declarations of a script its methods run like its functions. -/
theorem Runs.foldl {p : Program} (h : Runs machine d ctx) (hd : d.Sound)
    (hc : Carries machine.script (p.foldl Declared.add d)) (hv : p.ValidFrom d.names) :
    Runs machine (p.foldl Declared.add d) (p.foldl Context.add ctx) := by
  induction p generalizing d ctx with
  | nil => exact h
  | cons declaration p ih =>
    have hd' := hd.add hv.1
    have hc' : Carries machine.script (d.add declaration) := Carries.of_foldl (p := p) hc hd' hv.2
    exact ih (h.add hd (hc'.of_add hd hv.1) hv.1) hd' hc hv.2

/-- The method of a function runs as the function is called, if calls may nest deep enough. -/
theorem Program.run_script {before after : Program} {f : Function}
    (h : Program.Valid (before ++ .function f :: after))
    (hscript : machine.script = Program.script (before ++ .function f :: after)) {depth : Nat}
    (hdepth : min (Program.declared before).methods.size Scope.limit < depth) {values : List Value}
    (hlen : values.length = f.params.length) :
    machine.run depth (before.method f) values =
      f.call (before.context machine.mutators machine.handlers) values := by
  obtain ⟨hb, hf, ha⟩ := h.split
  have hsound : (Program.declared before).Sound := Program.sound_declared hb
  have hcarries : Carries machine.script (before.foldl Declared.add {}) :=
    hscript ▸ (Program.carries_script h).1
  have hstart : Runs machine {} { mutators := machine.mutators, handlers := machine.handlers } :=
    ⟨rfl, rfl, rfl, rfl, fun i m _ hm => by simp at hm⟩
  have hruns := hstart.foldl Declared.sound_nothing hcarries hb
  exact Function.run_eq hf hruns hsound hcarries hdepth hlen

end ScriptFuzz.Source
