import ScriptFuzz.Proofs.Faults.Scripts
import ScriptFuzz.Proofs.Reading.Derivations
import ScriptFuzz.Proofs.Reading.Functions
import ScriptFuzz.Proofs.Reading.Templates

/-!
# Reading scripts

A source text is compiled exactly if its lexemes spell a script that keeps the rules
(`compile_isOk_iff`), and then the result is the compiled form of that script, whichever derivation
it is taken from (`valid_of_compile`).

The declarations are read one after the other. What has been read at a place is kept in a
`ScriptTree`; it is related to what the declarations before the place amount to
(`ScriptTree.Holds`), and reading one more declaration preserves that, whatever follows it
(`ScriptTree.parseFrom_of_declaration`).
-/

namespace ScriptFuzz

open Source Cursor ParseResult

namespace ScriptTree

/-! ## Declarations that have been read -/

/-- What has been read is what the declarations before a place amount to. -/
structure Holds (tree : ScriptTree) (d : Source.Declared) : Prop extends tree.Declares d.names where
  methods : tree.functions.mapIdx (fun i f => f.method i) = d.methods
  named : tree.templates = d.templates.named
  pool : tree.pool = d.templates.pool

theorem holds_nothing : ({} : ScriptTree).Holds {} where
  functions := rfl
  templates := by simp
  methods := rfl
  named := rfl
  pool := rfl

variable {tree : ScriptTree} {d : Source.Declared}

theorem Holds.add_function (h : tree.Holds d) {f : Source.Function} {g : Function}
    (hm : ∀ i, g.method i = f.method d.names i) (hg : (g.name, g.params) = (f.name, f.params)) :
    { tree with functions := tree.functions.push g }.Holds (d.add (.function f)) where
  functions := by
    obtain ⟨hname, hparams⟩ := Prod.mk.inj hg
    simp only [Source.Declared.add, Naming.add, h.functions, Array.toList_push, List.map_append,
      List.map_cons, List.map_nil, hname, hparams]
  templates := h.templates
  methods := by
    simp only [Source.Declared.add, Array.mapIdx_push, h.methods, hm]
    rw [← h.methods, Array.size_mapIdx]
  named := h.named
  pool := h.pool

theorem Holds.add_template (h : tree.Holds d) (x : String) (entries : List Entry)
    {b : TemplateBuilder}
    (hb : b = entries.foldl (Entry.build tree.templates) { pool := tree.pool }) :
    { tree with
      templates := insertTemplate x b.template tree.templates, pool := b.pool }.Holds
      (d.add (.template x entries)) where
  functions := h.functions
  templates y := by
    dsimp only [Source.Declared.add, Naming.add]
    rw [isSome_lookup_insertTemplate, List.mem_cons, h.templates]
  methods := h.methods
  named := by
    rw [hb, h.named, h.pool]
    rfl
  pool := by
    rw [hb, h.named, h.pool]
    rfl

/-! ## Whole scripts -/

/-- A declaration that is spelled in front is read exactly if it keeps the rules, and reading goes
on behind it. -/
theorem parseFrom_of_declaration (fin : Position) {ts us : List Lexeme}
    {declaration : Declaration} (hd : declaration.Written ts) {tokens : List Token}
    (ht : tokens.map Token.lexeme = ts ++ us) (h : tree.Holds d) :
    (declaration.Valid d.names ∧ ∃ tree' rest,
      parseFrom fin tree tokens = parseFrom fin tree' rest ∧ rest.map Token.lexeme = us ∧
      rest <:+ tokens ∧ tree'.Holds (d.add declaration)) ∨
    (¬declaration.Valid d.names ∧
      ∃ diagnostic, parseFrom fin tree tokens = .error diagnostic) := by
  cases hd with
  | @template name entries hne he =>
    simp only [List.cons_append, List.append_assoc] at ht
    obtain ⟨t, rest, rfl, hl, hrest⟩ := List.map_eq_cons_iff.1 ht
    rw [parseFrom, hl]
    dsimp only
    have hparse := TemplateBuilder.meets_parse (k := ⟨fin, tree⟩) (c := { rest }) hne he
      h.toDeclares hrest
    split
    · next hq => exact .inr ⟨hparse.of_stopped hq, _, rfl⟩
    next x b after s hq =>
    obtain ⟨hvalid, hr, ha⟩ := hparse.of_parsed hq
    obtain ⟨rfl, hb⟩ := Prod.mk.inj hr
    obtain ⟨taken, htaken, -⟩ :=
      (TemplateBuilder.faithful_parse (k := ⟨fin, tree⟩) (clean_start rest 0)).of_parsed hq
    exact .inl ⟨hvalid, _, after.rest, rfl, ha, ⟨t :: taken, congrArg _ htaken.symm⟩,
      h.add_template x _ hb⟩
  | @function ts f hf =>
    obtain ⟨ls, rfl⟩ : ∃ ls, ts = .keyword .function :: ls := by
      cases hf
      exact ⟨_, rfl⟩
    obtain ⟨t, rest, rfl, hl, hrest⟩ := List.map_eq_cons_iff.1 ht
    rw [parseFrom, hl]
    dsimp only
    have hparse := Function.meets_parse (k := ⟨fin, tree⟩) (c := { rest }) hf h.toDeclares
      (congrArg _ hrest)
    split
    · next hq => exact .inr ⟨hparse.of_stopped hq, _, rfl⟩
    next g after s hq =>
    obtain ⟨hvalid, hm, hg, ha⟩ := hparse.of_parsed hq
    obtain ⟨taken, htaken, -⟩ :=
      (Function.faithful_parse (k := ⟨fin, tree⟩) (clean_start rest 0)).of_parsed hq
    exact .inl ⟨hvalid, _, after.rest, rfl, ha, ⟨t :: taken, congrArg _ htaken.symm⟩,
      h.add_function hm hg⟩

/-- Declarations that are spelled in front are read exactly if they keep the rules, and reading goes
on behind them. -/
theorem parseFrom_of_program (fin : Position) {ls rs : List Lexeme} {p : Program}
    (hw : p.Written ls) {tokens : List Token} (ht : tokens.map Token.lexeme = ls ++ rs)
    (h : tree.Holds d) :
    (p.ValidFrom d.names ∧ ∃ tree' rest,
      parseFrom fin tree tokens = parseFrom fin tree' rest ∧ rest.map Token.lexeme = rs ∧
      rest <:+ tokens ∧ tree'.Holds (p.foldl Source.Declared.add d)) ∨
    (¬p.ValidFrom d.names ∧ ∃ diagnostic, parseFrom fin tree tokens = .error diagnostic) := by
  induction hw generalizing tree d tokens with
  | nil => exact .inl ⟨trivial, tree, tokens, rfl, ht, List.suffix_refl _, h⟩
  | @cons ts us declaration p hd hp ih =>
    rw [Program.ValidFrom]
    rw [List.append_assoc] at ht
    rcases parseFrom_of_declaration fin hd ht h with
      ⟨hvalid, tree', rest, hparse, hrest, hsuffix, htree⟩ | ⟨hnot, diagnostic, hparse⟩
    · rw [and_iff_right hvalid, hparse]
      rcases ih hrest htree with
        ⟨hp, tree'', rest', hparse', hrest', hsuffix', htree'⟩ | ⟨hnot, hparse'⟩
      · exact .inl ⟨hp, tree'', rest', hparse', hrest', hsuffix'.trans hsuffix, htree'⟩
      · exact .inr ⟨hnot, hparse'⟩
    · exact .inr ⟨fun hv => hnot hv.1, diagnostic, hparse⟩

/-- From a place on, a script is read exactly if it keeps the rules. -/
theorem parseFrom_of_written (fin : Position) {ls : List Lexeme} {p : Program}
    (hw : p.Written ls) {tokens : List Token} (ht : tokens.map Token.lexeme = ls)
    (h : tree.Holds d) :
    (p.ValidFrom d.names ∧ ∃ final, parseFrom fin tree tokens = .ok final ∧
      final.Holds (p.foldl Source.Declared.add d)) ∨
    (¬p.ValidFrom d.names ∧ ∃ diagnostic, parseFrom fin tree tokens = .error diagnostic) := by
  rw [← List.append_nil ls] at ht
  refine (parseFrom_of_program fin hw ht h).imp_left ?_
  rintro ⟨hvalid, final, rest, hparse, hrest, -, hfinal⟩
  obtain rfl := List.map_eq_nil_iff.1 hrest
  exact ⟨hvalid, final, by rw [hparse, parseFrom], hfinal⟩

/-- The compiled form of what has been read is that of the declarations. -/
theorem Holds.script_eq (h : tree.Holds d) :
    tree.script = ⟨d.methods, d.templates.named, d.templates.pool.states⟩ := by
  rw [ScriptTree.script, h.methods, h.named, h.pool]

end ScriptTree

/-- A source text that spells a script is compiled exactly if the script keeps the rules, and then
to the compiled form of the script. -/
theorem compile_of_written {source : String} {p : Program} (hw : p.Written (lexemes source)) :
    (p.Valid ∧ compile source = .ok p.script) ∨
      (¬p.Valid ∧ ∃ diagnostic, compile source = .error diagnostic) := by
  rw [compile, ScriptTree.parse]
  rcases ScriptTree.parseFrom_of_written (TokenStream.ofSource source).fin hw rfl
    ScriptTree.holds_nothing with ⟨hvalid, final, hparse, hfinal⟩ | ⟨hvalid, diagnostic, hparse⟩
  · refine .inl ⟨hvalid, ?_⟩
    rw [hparse, Except.map, hfinal.script_eq]
    rfl
  · refine .inr ⟨hvalid, diagnostic, ?_⟩
    rw [hparse, Except.map]

/-- What a source text is compiled to is the compiled form of every script that it spells. -/
theorem valid_of_compile {source : String} {p : Program} {script : Script}
    (hw : p.Written (lexemes source)) (hc : compile source = .ok script) :
    p.Valid ∧ p.script = script := by
  rcases compile_of_written hw with ⟨hvalid, h⟩ | ⟨-, diagnostic, h⟩
  · exact ⟨hvalid, Except.ok.inj (h.symm.trans hc)⟩
  · cases h.symm.trans hc

/-- A source text that is compiled spells a script. -/
theorem exists_written_of_compile {source : String} {script : Script}
    (hc : compile source = .ok script) : ∃ p, Program.Written (lexemes source) p := by
  rw [compile] at hc
  cases hp : ScriptTree.parse source with
  | error diagnostic => rw [hp] at hc; cases hc
  | ok tree => exact ScriptTree.written_of_parse hp

/-- A source text is compiled exactly if there is no malformed token in it, its lexemes are those of
a script, and the script keeps the rules. -/
theorem compile_isOk_iff (source : String) :
    (∃ script, compile source = .ok script) ↔
      (∀ fault, .malformed fault ∉ lexemes source) ∧
        ∃ p : Program, p.Written (lexemes source) ∧ p.Valid := by
  constructor
  · rintro ⟨script, hc⟩
    obtain ⟨p, hp⟩ := exists_written_of_compile hc
    exact ⟨hp.not_malformed, p, hp, (valid_of_compile hp hc).1⟩
  · rintro ⟨-, p, hp, hvalid⟩
    rcases compile_of_written hp with ⟨-, h⟩ | ⟨hnot, -⟩
    · exact ⟨_, h⟩
    · exact absurd hvalid hnot

end ScriptFuzz
