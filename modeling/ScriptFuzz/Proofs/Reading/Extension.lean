import ScriptFuzz.Proofs.Campaign.Runs
import ScriptFuzz.Proofs.Code.Declared
import ScriptFuzz.Proofs.Reading.Scripts
import ScriptFuzz.Proofs.Tokens.Joining

/-!
# More text behind a script

Text behind a script does not change what the script is compiled to (`compile_extends`). The tokens
of the script stay the same, and its declarations are read as before; the declarations behind them
add methods, templates and mutators, and put nothing in the place of others (`Script.Extends`). If
the text behind the script is refused, then at a place in that text.
-/

namespace ScriptFuzz

open Source

/-- A script with more declarations: methods and mutators keep their numbers, and templates their
names. -/
structure Script.Extends (s s' : Script) : Prop where
  methods : s.methods.toList <+: s'.methods.toList
  templates : ∀ x t, (x, t) ∈ s.templates → s'.template? x = some t
  mutators : s.mutators.toList <+: s'.mutators.toList

/-! ## Declarations -/

/-- To a template under construction something was added, if anything: items behind its items, and
mutators behind those of the pool. -/
structure TemplateBuilder.Grows (b b' : TemplateBuilder) : Prop where
  items : b.items.toList <+: b'.items.toList
  states : b.pool.states.toList <+: b'.pool.states.toList

namespace TemplateBuilder

variable {b b' b'' : TemplateBuilder}

theorem Grows.refl (b : TemplateBuilder) : b.Grows b := ⟨List.prefix_refl _, List.prefix_refl _⟩

theorem Grows.trans (h : b.Grows b') (h' : b'.Grows b'') : b.Grows b'' :=
  ⟨h.items.trans h'.items, h.states.trans h'.states⟩

theorem grows_push (b : TemplateBuilder) (item : Item) : b.Grows (b.push item) where
  items := by
    rw [push, Array.toList_push]
    exact List.prefix_append _ _
  states := List.prefix_refl _

theorem grows_pushMutator (b : TemplateBuilder) (m : Mutator) : b.Grows (b.pushMutator m).2 where
  items := by
    rw [pushMutator, Pool.add, Array.toList_push]
    exact List.prefix_append _ _
  states := by
    rw [pushMutator, Pool.add, Array.toList_push]
    exact List.prefix_append _ _

theorem grows_foldl {α : Type} {step : TemplateBuilder → α → TemplateBuilder}
    (h : ∀ (b : TemplateBuilder) (a : α), b.Grows (step b a)) (b : TemplateBuilder)
    (as : List α) :
    b.Grows (as.foldl step b) := by
  induction as generalizing b with
  | nil => exact .refl b
  | cons a as ih => exact (h b a).trans (ih (step b a))

end TemplateBuilder

namespace Source

/-- Where each step adds to the end of a list, all steps together do. -/
theorem prefix_foldl {α β γ : Type} {step : β → α → β} (view : β → List γ)
    (h : ∀ b a, view b <+: view (step b a)) (b : β) (as : List α) :
    view b <+: view (as.foldl step b) := by
  induction as generalizing b with
  | nil => exact List.prefix_refl _
  | cons a as ih => exact (h b a).trans (ih (step b a))

variable {known : List (String × Template)}

theorem Field.grows_build (fuzz : Bool) (b : TemplateBuilder) (f : Field) :
    b.Grows (f.build known fuzz b) := by
  cases f with
  | scalar w v =>
    rw [build, TemplateBuilder.pushScalar]
    split
    · exact b.grows_pushMutator _
    · exact b.grows_push _
  | string form seed =>
    rw [build, TemplateBuilder.pushString]
    split
    · exact b.grows_pushMutator _
    · exact b.grows_push _
  | array w lower upper =>
    rw [build]
    split
    · exact b.grows_pushMutator _
    · exact b.grows_push _
  | reference x =>
    rw [build]
    split
    · exact b.grows_push _
    · exact .refl b

theorem Entry.grows_build (b : TemplateBuilder) (e : Entry) : b.Grows (e.build known b) := by
  cases e with
  | field f => exact f.grows_build false b
  | group fs => exact TemplateBuilder.grows_foldl (Field.grows_build true) b fs

theorem Declared.states_add (d : Declared) (declaration : Declaration) :
    d.templates.pool.states.toList <+: (d.add declaration).templates.pool.states.toList := by
  cases declaration with
  | template x entries =>
    exact
      (TemplateBuilder.grows_foldl Entry.grows_build { pool := d.templates.pool } entries).states
  | function f => exact List.prefix_refl _

theorem Declared.methods_add (d : Declared) (declaration : Declaration) :
    d.methods.toList <+: (d.add declaration).methods.toList := by
  cases declaration with
  | template x entries => exact List.prefix_refl _
  | function f =>
    dsimp only [add]
    rw [Array.toList_push]
    exact List.prefix_append _ _

/-- In the order of their names, templates are found. -/
theorem lookup_of_sorted {templates : List (String × Template)} {x : String} {t : Template}
    (hsorted : templates.Pairwise fun a b => a.1 < b.1) (h : (x, t) ∈ templates) :
    templates.lookup x = some t := by
  induction templates with
  | nil => cases h
  | cons entry templates ih =>
    obtain ⟨y, u⟩ := entry
    obtain ⟨hlt, hsorted⟩ := List.pairwise_cons.1 hsorted
    rw [List.lookup_cons]
    rcases List.mem_cons.1 h with heq | hmem
    · cases heq
      rw [beq_self_eq_true]
    · have hne : x ≠ y := (Std.ne_of_lt (hlt _ hmem)).symm
      rw [beq_false_of_ne hne]
      exact ih hsorted hmem

/-- A script is extended by declarations that keep the rules behind it. -/
theorem Program.extends_append {p q : Program} (h : Valid (p ++ q)) :
    p.script.Extends (Program.script (p ++ q)) := by
  obtain ⟨hp, hq⟩ := validFrom_append.1 h
  have hdeclared : declared (p ++ q) = q.foldl Declared.add (declared p) := List.foldl_append
  have hcarries : Carries (Program.script (p ++ q)) (q.foldl Declared.add (declared p)) := by
    rw [← hdeclared]
    exact ⟨fun _ _ h => h, fun _ _ h => h⟩
  refine ⟨?_, ?_, ?_⟩
  · show (declared p).methods.toList <+: (declared (p ++ q)).methods.toList
    rw [hdeclared]
    exact prefix_foldl (fun d : Declared => d.methods.toList) Declared.methods_add _ q
  · intro x t ht
    have hnames : names {} p = (declared p).names := (declared_names {} p).symm
    rw [hnames] at hq
    exact (hcarries.of_foldl (sound_declared hp) hq).templates x t
      (lookup_of_sorted (ready_script hp).2.2 ht)
  · show (declared p).templates.pool.states.toList <+:
      (declared (p ++ q)).templates.pool.states.toList
    rw [hdeclared]
    exact prefix_foldl (fun d : Declared => d.templates.pool.states.toList)
      Declared.states_add _ q

end Source

/-! ## Texts -/

/-- Behind a script, reading goes on with what was declared, at the first token that follows. -/
theorem compile_join {a b : String} {p : Program} (hw : p.Written (lexemes a)) (hp : p.Valid) :
    ∃ (tree : ScriptTree) (fin : Position) (later : List Token),
      compile (a ++ "\n" ++ b) = (ScriptTree.parseFrom fin tree later).map ScriptTree.script ∧
      lexemes (a ++ "\n" ++ b) = lexemes a ++ later.map Token.lexeme ∧
      ∀ before, before <+: a.toList → (Position.behind before).row < fin.row ∧
        ∀ t ∈ later, (Position.behind before).row < t.pos.row := by
  have hsound : ∀ t ∈ (TokenStream.ofSource a).tokens, t.lexeme.terminal ≠ .malformed := by
    intro t ht hmalformed
    cases hl : t.lexeme with
    | malformed fault => exact hw.not_malformed fault (hl ▸ List.mem_map_of_mem ht)
    | _ => rw [hl] at hmalformed; cases hmalformed
  obtain ⟨later, fin, hstream, hrows⟩ := tokens_newline a b hsound
  have hlexemes : ((TokenStream.ofSource a).tokens ++ later).map Token.lexeme =
      lexemes a ++ later.map Token.lexeme := List.map_append
  rcases ScriptTree.parseFrom_of_program fin hw hlexemes ScriptTree.holds_nothing with
    ⟨-, tree, rest, hparse, hrest, hsuffix, -⟩ | ⟨hnot, -⟩
  case inr => exact absurd hp hnot
  -- what is left are as many tokens as there are behind the line break
  have hlength : rest.length = later.length := by
    rw [← List.length_map Token.lexeme, hrest, List.length_map]
  have hlater : rest = later :=
    (List.suffix_of_suffix_length_le hsuffix (List.suffix_append _ _)
      (Nat.le_of_eq hlength)).eq_of_length hlength
  subst hlater
  refine ⟨tree, fin, rest, ?_, ?_, hrows⟩
  · rw [compile, ScriptTree.parse, hstream]
    dsimp only
    rw [hparse]
  · rw [lexemes, hstream]
    exact hlexemes

/-- Text behind a script that compiles, with a line break before it, does not change what the script
is compiled to: if the whole is compiled, then the methods of the script come first, and its
templates have the same items under their names, with the same mutators. If the whole is refused,
then in a row below all rows of the script. -/
theorem compile_extends {a b : String} {s : Script} (hc : compile a = .ok s) :
    (∀ s', compile (a ++ "\n" ++ b) = .ok s' → s.Extends s') ∧
    ∀ d, compile (a ++ "\n" ++ b) = .error d →
      ∀ before, before <+: a.toList → (Position.behind before).row < d.pos.row := by
  obtain ⟨p, hw⟩ := exists_written_of_compile hc
  obtain ⟨hp, rfl⟩ := valid_of_compile hw hc
  obtain ⟨tree, fin, later, hcompile, hlexemes, hrows⟩ := compile_join (b := b) hw hp
  cases hparse : ScriptTree.parseFrom fin tree later with
  | ok final =>
    refine ⟨?_, ?_⟩
    · intro s' hs'
      obtain ⟨q, hq⟩ := ScriptTree.written_of_parseFrom fin tree later hparse
      have hjoined := hw.join hq
      rw [← hlexemes] at hjoined
      obtain ⟨hvalid, rfl⟩ := valid_of_compile hjoined hs'
      exact Program.extends_append hvalid
    · intro d hd
      rw [hcompile, hparse] at hd
      cases hd
  | error d =>
    have hreported : Reported later fin d := by
      have hjudged := ScriptTree.judged_parseFrom fin tree (Cursor.clean_start later 0)
      rwa [hparse] at hjudged
    refine ⟨?_, ?_⟩
    · intro s' hs'
      rw [hcompile, hparse] at hs'
      cases hs'
    · intro d' hd' before hbefore
      rw [hcompile, hparse] at hd'
      cases hd'
      obtain ⟨hfin, hlater⟩ := hrows before hbefore
      rcases hreported.pos_cases with ⟨t, ht, hpos⟩ | hpos
      · rw [hpos]
        exact hlater t ht
      · rwa [hpos]

/-- A call of the host stays one where a function of that name follows, and a character that begins
no token is found in its row. -/
theorem compile_extends_hostCall :
    ∃ s s' d,
      compile "template t = [\x7bbyte\x7d];\nfunction f(a) \x7b return g(t, a); \x7d" = .ok s ∧
      compile ("template t = [\x7bbyte\x7d];\nfunction f(a) \x7b return g(t, a); \x7d" ++ "\n" ++
        "template u = [t, \x7bword\x7d]; function g(b, c) \x7b return c; \x7d") = .ok s' ∧
      compile ("template t = [\x7bbyte\x7d];\nfunction f(a) \x7b return g(t, a); \x7d" ++ "\n" ++
        "template u = [@];") = .error d ∧
      s.Extends s' ∧ s'.methods.toList.map Method.name = ["f", "g"] ∧
      d.cause = .lexical (.unexpectedCharacter '@') ∧ 2 < d.pos.row := by
  let f : Source.Function := ⟨"f", ["a"], [.result (.call "g" [.name "t", .name "a"])]⟩
  let g : Source.Function := ⟨"g", ["b", "c"], [.result (.name "c")]⟩
  let p : Program := [.template "t" [.group [.scalar .one none]], .function f]
  let q : Program := [.template "u" [.field (.reference "t"), .group [.scalar .two none]],
    .function g]
  have hc : compile "template t = [\x7bbyte\x7d];\nfunction f(a) \x7b return g(t, a); \x7d" =
      .ok (Program.script p) := by
    cbv
  have hc' : compile ("template t = [\x7bbyte\x7d];\nfunction f(a) \x7b return g(t, a); \x7d" ++
      "\n" ++ "template u = [t, \x7bword\x7d]; function g(b, c) \x7b return c; \x7d") =
      .ok (Program.script (p ++ q)) := by
    cbv
  have hd : compile ("template t = [\x7bbyte\x7d];\nfunction f(a) \x7b return g(t, a); \x7d" ++
      "\n" ++ "template u = [@];") =
      .error ⟨⟨3, 15⟩, .lexical (.unexpectedCharacter '@')⟩ := by
    cbv
  exact ⟨_, _, _, hc, hc', hd, (compile_extends hc).1 _ hc', by cbv, rfl,
    (compile_extends hc).2 _ hd _ (List.prefix_refl _)⟩

end ScriptFuzz
