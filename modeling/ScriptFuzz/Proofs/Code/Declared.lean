import ScriptFuzz.Proofs.Language.Code
import ScriptFuzz.Proofs.Language.Rules

/-!
# What is declared at a place

What the declarations of a script that keeps the rules amount to, and how the methods and templates
at one place of a script are those of the whole script.

- `Declared.Sound`: the invariant of declarations that keep the rules.
- `Carries`: what is declared at a place is part of the script.
- `Program.carries_script`, `Program.exists_function`: the methods of a script are those of its
  functions.
-/

namespace ScriptFuzz.Source

/-! ## Declarations that keep the rules -/

/-- What holds behind declarations that keep the rules. -/
structure Declared.Sound (d : Declared) : Prop where
  functions : d.names.functions = d.methods.toList.map fun m => (m.name, m.arity)
  distinct : (d.names.functions.map (·.1)).Nodup
  index : ∀ (i : Nat) (m : Method), d.methods[i]? = some m → m.index = i
  templates : ∀ x, x ∈ d.names.templates ↔ (d.templates.named.lookup x).isSome

theorem Declared.sound_nothing : Declared.Sound {} where
  functions := rfl
  distinct := List.nodup_nil
  index i m h := by simp at h
  templates x := by simp

theorem Declared.Sound.add {d : Declared} (h : d.Sound) {declaration : Declaration}
    (hv : declaration.Valid d.names) : (d.add declaration).Sound := by
  cases declaration with
  | template x entries =>
    refine ⟨h.functions, h.distinct, h.index, ?_⟩
    intro y
    dsimp only [Declared.add, Naming.add]
    rw [List.mem_cons, h.templates]
    exact (isSome_lookup_insertTemplate x y _ _).symm
  | function f =>
    refine ⟨?_, ?_, ?_, h.templates⟩
    · simp only [Declared.add, Naming.add, h.functions, Array.toList_push, List.map_append]
      rfl
    · simp only [Declared.add, Naming.add, List.map_append, List.map_cons, List.map_nil]
      refine List.nodup_append.2 ⟨h.distinct, by simp, ?_⟩
      rintro x hx y hy rfl
      exact hv.fresh (by simpa [List.mem_singleton.1 hy] using hx)
    · intro i m hm
      simp only [Declared.add] at hm
      rw [Array.getElem?_push] at hm
      split at hm
      · next hi =>
        cases hm
        exact hi.symm
      · exact h.index i m hm

/-- The names behind declarations. -/
def Program.names (names : Naming) (p : Program) : Naming := p.foldl Naming.add names

theorem Program.declared_names (d : Declared) (p : Program) :
    (p.foldl Declared.add d).names = Program.names d.names p := by
  induction p generalizing d with
  | nil => rfl
  | cons declaration p ih => exact ih _

theorem Program.validFrom_append {names : Naming} {p q : Program} :
    ValidFrom names (p ++ q) ↔ ValidFrom names p ∧ ValidFrom (Program.names names p) q := by
  induction p generalizing names with
  | nil => exact (iff_of_eq (true_and _)).symm
  | cons declaration p ih =>
    rw [List.cons_append, ValidFrom, ValidFrom, ih, and_assoc]
    rfl

theorem Declared.Sound.foldl {d : Declared} (h : d.Sound) {p : Program}
    (hv : p.ValidFrom d.names) : (p.foldl Declared.add d).Sound := by
  induction p generalizing d with
  | nil => exact h
  | cons declaration p ih => exact ih (h.add hv.1) hv.2

/-! ## Places of a script -/

/-- The methods and templates of a place are those of the whole script. -/
structure Carries (script : Script) (d : Declared) : Prop where
  methods : ∀ (i : Nat) (m : Method), d.methods[i]? = some m → script.methods[i]? = some m
  templates : ∀ (x : String) (t : Template), d.templates.named.lookup x = some t →
    script.template? x = some t

variable {script : Script} {d : Declared}

/-- What is declared at a place stays declared behind it. -/
theorem Carries.of_add {declaration : Declaration} (h : Carries script (d.add declaration))
    (hd : d.Sound) (hv : declaration.Valid d.names) : Carries script d := by
  cases declaration with
  | template x entries =>
    refine ⟨h.methods, ?_⟩
    intro y t hy
    have hyx : y ≠ x := by
      rintro rfl
      exact hv.1 ((hd.templates y).2 (by rw [hy]; rfl))
    exact h.templates y t ((lookup_insertTemplate_of_ne hyx _ _).trans hy)
  | function f =>
    refine ⟨?_, h.templates⟩
    intro i m hm
    obtain ⟨hlt, rfl⟩ := Array.getElem?_eq_some_iff.1 hm
    exact h.methods i _ (Array.getElem?_push_lt hlt)

theorem Carries.of_foldl {p : Program} (h : Carries script (p.foldl Declared.add d))
    (hd : d.Sound) (hv : p.ValidFrom d.names) : Carries script d := by
  induction p generalizing d with
  | nil => exact h
  | cons declaration p ih => exact (ih h (hd.add hv.1) hv.2).of_add hd hv.1

/-- A function that is declared at a place has a method in the script, under the same number. -/
theorem Carries.exists_method (h : Carries script d) (hd : d.Sound) {i : Nat} {x : String}
    {arity : Nat} (hi : d.names.functions[i]? = some (x, arity)) :
    ∃ m, d.methods[i]? = some m ∧ script.methods[i]? = some m ∧ m.arity = arity := by
  rw [hd.functions, List.getElem?_map, Option.map_eq_some_iff] at hi
  obtain ⟨m, hm, hx⟩ := hi
  rw [Array.getElem?_toList] at hm
  exact ⟨m, hm, h.methods i m hm, (Prod.mk.inj hx).2⟩

theorem Carries.exists_template (h : Carries script d) (hd : d.Sound) {x : String}
    (hx : x ∈ d.names.templates) :
    ∃ t, d.templates.named.lookup x = some t ∧ script.template? x = some t := by
  obtain ⟨t, ht⟩ := Option.isSome_iff_exists.1 ((hd.templates x).1 hx)
  exact ⟨t, ht, h.templates x t ht⟩

/-! ## The functions of a script -/

namespace Program

/-- The method of a function behind declarations. -/
def method (before : Program) (f : Function) : Method :=
  f.method (declared before).names (declared before).methods.size

variable {before after : Program} {f : Function}

theorem declared_append :
    declared (before ++ .function f :: after) =
      after.foldl Declared.add ((declared before).add (.function f)) := by
  rw [declared, List.foldl_append]
  rfl

/-- In a script that keeps the rules, the declarations before a function, the function itself and
those behind it keep them. -/
theorem Valid.split (h : Valid (before ++ .function f :: after)) :
    before.ValidFrom {} ∧ f.Valid (declared before).names ∧
      after.ValidFrom ((declared before).add (.function f)).names := by
  obtain ⟨hb, hf, ha⟩ := validFrom_append.1 h
  have hnames : names {} before = (declared before).names := (declared_names {} before).symm
  rw [hnames] at hf ha
  exact ⟨hb, hf, ha⟩

theorem sound_declared {p : Program} (h : p.Valid) : (declared p).Sound :=
  Declared.sound_nothing.foldl h

/-- What is declared before a function is part of the script, and so is the method of the function,
under the number of functions before it. -/
theorem carries_script (h : Valid (before ++ .function f :: after)) :
    Carries (Program.script (before ++ .function f :: after)) (declared before) ∧
      (Program.script (before ++ .function f :: after)).methods[(declared before).methods.size]? =
        some (before.method f) := by
  obtain ⟨hb, hf, ha⟩ := h.split
  have hsound : (declared before).Sound := sound_declared hb
  have hcarries : Carries (Program.script (before ++ .function f :: after))
      (declared (before ++ .function f :: after)) :=
    ⟨fun _ _ h => h, fun _ _ h => h⟩
  rw [declared_append] at hcarries
  replace hcarries := hcarries.of_foldl (hsound.add hf) ha
  refine ⟨hcarries.of_add hsound hf, hcarries.methods _ _ ?_⟩
  simp only [Declared.add, Array.getElem?_push_size, method]

/-- Every method behind declarations is there before them, or is that of a function among them. -/
theorem exists_function_of_foldl {d : Declared} {p : Program} {i : Nat} {m : Method}
    (hm : (p.foldl Declared.add d).methods[i]? = some m) :
    d.methods[i]? = some m ∨
      ∃ (before : Program) (f : Function) (after : Program), p = before ++ .function f :: after ∧
        m = f.method (before.foldl Declared.add d).names
          (before.foldl Declared.add d).methods.size := by
  induction p generalizing d with
  | nil => exact .inl hm
  | cons declaration p ih =>
    rcases ih hm with hd | ⟨before, f, after, rfl, rfl⟩
    · cases declaration with
      | template => exact .inl hd
      | function f =>
        simp only [Declared.add] at hd
        rw [Array.getElem?_push] at hd
        split at hd
        · cases hd
          exact .inr ⟨[], f, p, rfl, rfl⟩
        · exact .inl hd
    · exact .inr ⟨declaration :: before, f, after, rfl, rfl⟩

/-- Every method of a script is that of a function. -/
theorem exists_function {p : Program} {i : Nat} {m : Method}
    (hm : p.script.methods[i]? = some m) :
    ∃ (before : Program) (f : Function) (after : Program),
      p = before ++ .function f :: after ∧ m = before.method f :=
  (exists_function_of_foldl hm).resolve_left (by simp)

/-- No two methods have the same name. -/
theorem nodup_script {p : Program} (h : p.Valid) :
    (p.script.methods.toList.map Method.name).Nodup := by
  have hsound := sound_declared h
  have hdistinct := hsound.distinct
  rw [hsound.functions, List.map_map] at hdistinct
  exact hdistinct

/-- Methods are found by the names of their functions. -/
theorem method?_script (h : Valid (before ++ .function f :: after)) :
    (Program.script (before ++ .function f :: after)).method? f.name = some (before.method f) := by
  obtain ⟨hlt, hget⟩ := Array.getElem?_eq_some_iff.1 (carries_script h).2
  rw [Script.method?, Array.find?_eq_some_iff_getElem]
  refine ⟨beq_self_eq_true f.name, _, hlt, hget, ?_⟩
  intro j hj
  have hne := List.pairwise_iff_getElem.1 (nodup_script h) j _ (by simp; omega) (by simpa using hlt)
    hj
  simp only [List.getElem_map, Array.getElem_toList, hget] at hne
  simpa [method, Function.method] using hne

end Program

end ScriptFuzz.Source
