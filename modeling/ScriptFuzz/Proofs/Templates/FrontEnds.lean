import ScriptFuzz.Proofs.Campaign.Runs
import ScriptFuzz.Proofs.Code.Declared
import ScriptFuzz.Proofs.Expressions.RoundTrip
import ScriptFuzz.Proofs.Expressions.Tags
import ScriptFuzz.Proofs.Templates.Translation

/-!
# Two ways to a template

A template can be lowered from an expression or compiled from a script. Where both languages can say
the same, both ways lead to the same template (`Expr.lower_eq_compile`).

- `Lowering.Sound`: the mutators of a lowered expression, in the order of the numbers under which
  they are listed, are those of the template, in the order of its items.
- `Expr.Portable.lower_eq_build`: a portable expression is lowered to the items that its template
  in a script is built of.
-/

namespace ScriptFuzz

open Source

/-! ## The mutators of a lowered expression -/

namespace TemplateBuilder

variable {b : TemplateBuilder}

theorem mutators_push {item : Item} (h : ∀ id, item ≠ .mutator id) :
    (b.push item).template.mutators = b.template.mutators := by
  cases item with
  | mutator id => exact absurd rfl (h id)
  | _ => simp [template, push, Template.mutators]

theorem mutators_pushMutator (m : Mutator) :
    (b.pushMutator m).2.template.mutators = b.template.mutators ++ [(b.pushMutator m).1] := by
  simp [template, pushMutator, Template.mutators]

end TemplateBuilder

namespace Lowering

/-- The mutators are listed under increasing numbers below `next`, and they are those of the
template in the order of its items. -/
structure Sound (s : Lowering) (next : Nat) : Prop where
  template : s.origins.toList.map (·.2) = s.builder.template.mutators
  sorted : s.origins.toList.Pairwise (·.1 < ·.1)
  below : ∀ origin ∈ s.origins.toList, origin.1 < next

variable {s : Lowering} {n m : Nat}

theorem sound_start (pool : Pool) (n : Nat) : Sound { builder := { pool } } n where
  template := rfl
  sorted := .nil
  below _ h := absurd h List.not_mem_nil

theorem Sound.mono (h : s.Sound n) (hle : n ≤ m) : s.Sound m where
  template := h.template
  sorted := h.sorted
  below origin horigin := Nat.lt_of_lt_of_le (h.below origin horigin) hle

theorem Sound.push (h : s.Sound n) {item : Item} (hitem : ∀ id, item ≠ .mutator id) :
    (s.push item).Sound n where
  template := h.template.trans (TemplateBuilder.mutators_push hitem).symm
  sorted := h.sorted
  below := h.below

/-- A mutator is listed under the next number. -/
theorem Sound.pushMutator (h : s.Sound n) (mutator : Mutator) :
    (s.pushMutator n mutator).Sound (n + 1) where
  template := by
    rw [Lowering.pushMutator, Array.toList_push, List.map_append, h.template]
    exact (TemplateBuilder.mutators_pushMutator mutator).symm
  sorted := by
    rw [Lowering.pushMutator, Array.toList_push, List.pairwise_append]
    refine ⟨h.sorted, List.pairwise_singleton _ _, ?_⟩
    intro origin horigin last hlast
    rw [List.mem_singleton.1 hlast]
    exact h.below origin horigin
  below := by
    rw [Lowering.pushMutator, Array.toList_push]
    intro origin horigin
    rcases List.mem_append.1 horigin with horigin | horigin
    · exact Nat.lt_succ_of_lt (h.below origin horigin)
    · rw [List.mem_singleton.1 horigin]
      exact Nat.lt_succ_self n

/-- Mutators that were added under increasing numbers are listed in the order in which they were
added. -/
theorem mutators_of_sorted (h : s.origins.toList.Pairwise (·.1 < ·.1)) :
    s.mutators = s.origins.toList :=
  List.mergeSort_of_pairwise (h.imp fun hlt => decide_eq_true (Nat.le_of_lt hlt))

/-- In the order of their numbers, the mutators are those of the template. -/
theorem Sound.mutators_eq (h : s.Sound n) :
    s.mutators.map (·.2) = s.builder.template.mutators := by
  rw [mutators_of_sorted h.sorted, h.template]

end Lowering

/-! ## Lowering builds the items of the script -/

namespace Expr

variable {declared : Declared} {inFuzz : Bool} {n m : Nat} {s : Lowering} {t : WireType}

/-- An integer of a plain type is lowered to the scalar, or the counter, that a script has for it.
-/
theorem lowerScalar_of_plain (ht : t.Plain) (bits : UInt64) (hs : s.Sound n) :
    ∃ l, lowerScalar ⟨n, inFuzz⟩ t bits s = .ok l ∧
      l.builder = s.builder.pushScalar t.width inFuzz bits ∧ l.Sound (n + 1) := by
  cases inFuzz with
  | false =>
    have hitem : ∀ id, t.width.scalar bits ≠ .mutator id := by
      cases t.width <;> simp [Width.scalar]
    exact ⟨_, rfl, rfl, (hs.push hitem).mono (Nat.le_succ n)⟩
  | true =>
    refine ⟨_, ?_, rfl, hs.pushMutator (.ofWidth t.width bits.toNat)⟩
    rw [lowerScalar, if_neg (by simp), if_neg ht.2]

theorem lower_vector {lower upper : UInt64}
    (hfixed : inFuzz ∨ lower = upper ∧ lower.toNat * t.width.bytes < 2 ^ (64 : Nat))
    (hs : s.Sound n) :
    ∃ l, (Expr.vector ⟨n, inFuzz⟩ t lower upper).lower declared s = .ok l ∧
      l.builder =
        (Source.Field.array t.width lower (if lower = upper then none else some upper)).build
          declared inFuzz s.builder ∧ l.Sound (n + 1) := by
  have hupper : (if lower = upper then none else some upper).getD lower = upper := by
    split
    · assumption
    · rfl
  cases inFuzz with
  | true =>
    refine ⟨_, ?_, ?_, hs.pushMutator (.ofLengths t.width.bytes lower.toNat upper.toNat)⟩
    · rw [Expr.lower, if_pos rfl]
    · rw [Source.Field.build, if_pos rfl, hupper]
      rfl
  | false =>
    obtain ⟨rfl, hsize⟩ := hfixed.resolve_left Bool.false_ne_true
    refine ⟨s.push (.buffer (List.replicate (lower.toNat * t.width.bytes) 0)), ?_, ?_, ?_⟩
    · rw [Expr.lower, if_neg Bool.false_ne_true, if_pos rfl, Nat.mod_eq_of_lt hsize]
    · rw [Source.Field.build, if_neg Bool.false_ne_true]
      rfl
    · exact (hs.push (by simp)).mono (Nat.le_succ n)

/-- Adds items with their braces to a template. -/
def buildAll (declared : Declared) (parts : List (Bool × Source.Field)) (b : TemplateBuilder) :
    TemplateBuilder :=
  parts.foldl (fun b p => p.2.build declared p.1 b) b

/-- Expressions are lowered one after the other. -/
theorem lowerAll_eq_build {items : List Expr}
    (hlower : ∀ e ∈ items, ∀ (n m : Nat) (s : Lowering), e.Tagged inFuzz n m → s.Sound n →
      ∃ l, e.lower declared s = .ok l ∧ l.builder = buildAll declared (e.parts inFuzz) s.builder ∧
        l.Sound m)
    (ht : AllTagged inFuzz n m items) (hs : s.Sound n) :
    ∃ l, lowerAll declared items s = .ok l ∧
      l.builder = buildAll declared (items.flatMap (parts inFuzz)) s.builder ∧ l.Sound m := by
  induction items generalizing n s with
  | nil =>
    cases ht
    exact ⟨s, rfl, rfl, hs⟩
  | cons e items ih =>
    obtain ⟨he, hlower⟩ := List.forall_mem_cons.1 hlower
    cases ht with | cons hte htes =>
    obtain ⟨l₁, hl₁, hb₁, hs₁⟩ := he _ _ s hte hs
    obtain ⟨l, hl, hb, hsl⟩ := ih hlower htes hs₁
    refine ⟨l, ?_, ?_, hsl⟩
    · rw [lowerAll, hl₁]
      exact hl
    · rw [hb, hb₁, buildAll, buildAll, buildAll, List.flatMap_cons, List.foldl_append]

/-- A portable expression is lowered to the items that its template in a script is built of. -/
theorem Portable.lower_eq_build {e : Expr} (hp : e.Portable declared inFuzz)
    (ht : e.Tagged inFuzz n m) (hs : s.Sound n) :
    ∃ l, e.lower declared s = .ok l ∧ l.builder = buildAll declared (e.parts inFuzz) s.builder ∧
      l.Sound m := by
  induction hp generalizing n m s with
  | @type inFuzz tag t hplain =>
    cases ht with | type =>
    rw [parts_of_entries rfl]
    exact lowerScalar_of_plain hplain 0 hs
  | @constant inFuzz tag t value hplain hv =>
    cases ht with | constant =>
    rw [parts_of_entries rfl]
    exact lowerScalar_of_plain hplain (constantBits value) hs
  | @reference inFuzz tag name hn =>
    cases ht with | reference =>
    rw [parts_of_entries rfl]
    obtain ⟨target, htarget⟩ := Option.isSome_iff_exists.1 hn
    refine ⟨s.push target.asItem, ?_, ?_, ?_⟩
    · rw [lower, htarget]
    · simp only [fields, buildAll, List.map_cons, List.map_nil, List.foldl_cons, List.foldl_nil,
        Source.Field.build, htarget]
      rfl
    · exact (hs.push (by simp [Template.asItem])).mono (Nat.le_succ n)
  | @vector inFuzz tag t lower upper hplain hle hfixed =>
    cases ht with | vector =>
    rw [parts_of_entries rfl]
    exact lower_vector hfixed hs
  | @sequence inFuzz tag items hne hi ih =>
    cases ht with | @sequence _ _ k _ h =>
    rw [parts_sequence]
    obtain ⟨l, hl, hb, hsl⟩ := lowerAll_eq_build (fun e he _ _ _ => ih e he) h hs
    exact ⟨l, by rw [lower, hl], hb, hsl.mono (Nat.le_succ k)⟩
  | @fuzz tag items hne hi ih =>
    cases ht with | @fuzz _ k _ h =>
    rw [parts_fuzz]
    obtain ⟨l, hl, hb, hsl⟩ := lowerAll_eq_build (fun e he _ _ _ => ih e he) h hs
    exact ⟨l, by rw [lower, hl], hb, hsl.mono (Nat.le_succ k)⟩

theorem buildAll_parts (declared : Declared) (e : Expr) (b : TemplateBuilder) :
    buildAll declared (e.parts false) b = e.entries.foldl (Entry.build declared) b := by
  rw [parts, buildAll, List.foldl_flatMap]
  congr 1
  funext b entry
  exact (entry.build_eq declared b).symm

end Expr

/-! ## Scripts with one more template -/

namespace Source.Program

variable {p : Program} {x : String} {entries : List Entry}

theorem Written.append {ls ts : List Lexeme} {d : Declaration} (hp : p.Written ls)
    (hd : d.Written ts) : Program.Written (ls ++ ts) (p ++ [d]) := by
  simpa using hp.join (.cons hd .nil)

/-- A template with a new name may be added to a script that keeps the rules. -/
theorem Valid.append (h : p.Valid) (hx : p.script.template? x = none)
    (he : ∀ entry ∈ entries, entry.Valid (declared p).names) :
    Valid (p ++ [.template x entries]) := by
  have hnames : names {} p = (declared p).names := (declared_names {} p).symm
  refine validFrom_append.2 ⟨h, ?_⟩
  rw [hnames]
  refine ⟨⟨?_, he⟩, trivial⟩
  rw [(sound_declared h).templates]
  exact Option.not_isSome_iff_eq_none.2 hx

/-- The pool of a script is that of its declarations. -/
theorem pool_script (h : p.Valid) : p.script.pool = (declared p).templates.pool := by
  have hheld := (ready_declared h).pool.held
  rw [Script.pool, script, ← hheld]

/-- What one more template adds to a script. -/
theorem script_append (p : Program) (x : String) (entries : List Entry) :
    script (p ++ [.template x entries]) =
      { methods := p.script.methods
        templates := ScriptTree.insertTemplate x
          (entries.foldl (Entry.build p.script.templates)
            { pool := (declared p).templates.pool }).template p.script.templates
        mutators := (entries.foldl (Entry.build p.script.templates)
          { pool := (declared p).templates.pool }).pool.states } := by
  rw [script, declared, List.foldl_append]
  rfl

end Source.Program

/-! ## Both ways -/

/-- Moves the mutators of a pool on, each of them as often as it is said. -/
def Pool.advance (pool : Pool) (times : MutatorId → Nat) : Pool :=
  { pool with states := pool.states.mapIdx fun id m => m.after (times id) }

/-- The signatures of mutators in their present states. -/
def Pool.signatures (pool : Pool) (ids : List MutatorId) : List String :=
  ids.map fun id => (pool.state id).describe

/-- The parse of a portable expression is lowered to the template that it becomes in a script, where
both refer to the templates of one script and add their mutators to its pool. The template can be
written, and behind the declarations of the script it is compiled. Both have the same items, the
mutators of both are the same in their order, and so both write the same bytes and have the same
signatures however far the mutators are moved on. -/
theorem Expr.lower_eq_compile {text source x : String} {fin : Position} {n : Nat} {e : Expr}
    {after : Cursor} {shorter : after.rest.length < (Cursor.ofSource text n).rest.length}
    {script : Script}
    (he : Expr.parse fin (Cursor.ofSource text n) = .parsed e after shorter)
    (hc : compile source = .ok script) (hp : e.Portable script.templates false)
    (hx : script.template? x = none) :
    (∃ ts, Declaration.Written ts (.template x e.entries)) ∧
      ∃ l, e.lower script.templates { builder := { pool := script.pool } } = .ok l ∧
        ∀ (ts : List Lexeme) (source' : String), Declaration.Written ts (.template x e.entries) →
          lexemes source' = lexemes source ++ ts →
          ∃ script' t, compile source' = .ok script' ∧ script'.template? x = some t ∧
            (∀ y, y ≠ x → script'.template? y = script.template? y) ∧
            t = l.builder.template ∧ script'.pool.states = l.builder.pool.states ∧
            t.mutators = l.mutators.map (·.2) ∧
            ∀ times : MutatorId → Nat,
              t.generate (script'.pool.advance times) =
                l.builder.template.generate (l.builder.pool.advance times) ∧
              (script'.pool.advance times).signatures t.mutators =
                (l.builder.pool.advance times).signatures (l.mutators.map (·.2)) := by
  refine ⟨hp.exists_written x, ?_⟩
  obtain ⟨p, hw⟩ := exists_written_of_compile hc
  obtain ⟨hvalid, rfl⟩ := valid_of_compile hw hc
  obtain ⟨l, hl, hb, hsound⟩ :=
    hp.lower_eq_build (tagged_of_parse he) (Lowering.sound_start p.script.pool n)
  rw [buildAll_parts, Program.pool_script hvalid] at hb
  refine ⟨l, hl, ?_⟩
  intro ts source' hts hs
  have hw' := hw.append hts
  rw [← hs] at hw'
  have hentries : ∀ entry ∈ e.entries, entry.Valid (Program.declared p).names :=
    hp.valid_entries (Program.sound_declared hvalid).templates
  have hvalid' := hvalid.append hx hentries
  rcases compile_of_written hw' with ⟨-, hc'⟩ | ⟨hnot, -⟩
  case inr => exact absurd hvalid' hnot
  have hpool : (Program.script (p ++ [.template x e.entries])).pool = l.builder.pool := by
    rw [Program.pool_script hvalid', hb, Program.declared, List.foldl_append]
    rfl
  have htemplate : (Program.script (p ++ [.template x e.entries])).template? x =
      some l.builder.template := by
    rw [Program.script_append, Script.template?, hb]
    exact lookup_insertTemplate_self hx _
  refine ⟨_, l.builder.template, hc', htemplate, ?_, rfl, ?_, hsound.mutators_eq.symm, ?_⟩
  · intro y hy
    rw [Program.script_append]
    exact lookup_insertTemplate_of_ne hy _ _
  · exact congrArg Pool.states hpool
  · intro times
    rw [hpool, hsound.mutators_eq]
    exact ⟨rfl, rfl⟩

/-- Whether an expression is portable does not depend on its tags. -/
theorem Expr.Portable.of_bare {declared : Declared} {inFuzz : Bool} {e : Expr}
    (hwf : e.WellFormed inFuzz) (hp : e.bare.Portable declared inFuzz) :
    e.Portable declared inFuzz := by
  induction hwf with
  | type tag t =>
    cases hp with | type _ ht =>
    exact .type tag ht
  | constant tag hv =>
    cases hp with | constant _ ht hv =>
    exact .constant tag ht hv
  | reference tag hn =>
    cases hp with | reference _ hn =>
    exact .reference tag hn
  | property => cases hp
  | vector tag t hle =>
    cases hp with | vector _ ht hle hfixed =>
    exact .vector tag ht hle hfixed
  | sequence tag hne _ ih =>
    cases hp with | sequence _ _ hi =>
    rw [bareAll_eq_map] at hi
    exact .sequence tag hne fun e he => ih e he (hi _ (List.mem_map_of_mem he))
  | fuzz tag hne _ ih =>
    cases hp with | fuzz _ _ hi =>
    rw [bareAll_eq_map] at hi
    exact .fuzz tag hne fun e he => ih e he (hi _ (List.mem_map_of_mem he))

/-- A counter, both ways. -/
theorem Expr.lower_counter :
    ∃ e after shorter script l script',
      Expr.parse {} (Cursor.ofSource "{u16}" 0) = .parsed e after shorter ∧
        compile "" = .ok script ∧
        e.lower script.templates { builder := { pool := script.pool } } = .ok l ∧
        compile "template t=[{word}];" = .ok script' ∧
        script'.template? "t" = some l.builder.template ∧
        script'.pool.states = l.builder.pool.states := by
  let group : Expr := .fuzz default [.type default ⟨.two, false⟩]
  have hprinted : Printed "{u16}".toList
      [.mark .openBrace, .keyword (.wire ⟨.two, false⟩), .mark .closeBrace] :=
    Eq.mp (congrArg (Printed · _) (by decide)) <|
      Printed.cons .nil (.mark .openBrace) (by rintro c ⟨⟩; rfl) <|
        .cons .nil (.keyword (.wire ⟨.two, false⟩)) (by rintro c ⟨⟩; rfl) <|
          .cons .nil (.mark .closeBrace) (by rintro c ⟨⟩) <| .nil .nil
  have hwf : group.WellFormed false :=
    .fuzz default (by simp) fun e he => List.mem_singleton.1 he ▸ .type default _
  have hw : group.Written [.mark .openBrace, .keyword (.wire ⟨.two, false⟩), .mark .closeBrace] :=
    @Expr.Written.fuzz default [([.keyword (.wire ⟨.two, false⟩)], .type default ⟨.two, false⟩)]
      fun i hi => List.mem_singleton.1 hi ▸ .type default _
  obtain ⟨e, after, shorter, he, hbare, -⟩ :=
    Expr.parse_of_printed hwf hw Expr.ends_nil hprinted {} 0
  have hc : compile "" = .ok (Program.script []) := by cbv
  have hp : e.Portable (Program.script []).templates false := by
    refine Expr.Portable.of_bare (Expr.printed_of_parse he).1 ?_
    rw [hbare]
    refine .fuzz default (by simp) fun e he => List.mem_singleton.1 he ▸ .type default ?_
    exact ⟨rfl, by decide⟩
  have hts : Declaration.Written
      [.keyword .template, .ident "t", .mark .assign, .mark .openBracket, .mark .openBrace,
        .keyword .word, .mark .closeBrace, .mark .closeBracket, .mark .semicolon]
      (.template "t" e.entries) := by
    rw [← Expr.entries_bare, hbare]
    refine @Declaration.Written.template "t"
      [([.mark .openBrace, .keyword .word, .mark .closeBrace], .group [.scalar .two none])]
      (by simp) ?_
    intro entry hentry
    obtain rfl := List.mem_singleton.1 hentry
    exact @Entry.Written.group [([.keyword .word], .scalar .two none)] (by simp)
      fun f hf => List.mem_singleton.1 hf ▸ .scalar rfl
  have hx : (Program.script []).template? "t" = none := rfl
  obtain ⟨-, l, hl, hcompile⟩ := Expr.lower_eq_compile he hc hp hx
  obtain ⟨script', t, hc', ht, -, rfl, hstates, -⟩ :=
    hcompile _ "template t=[{word}];" hts (by cbv)
  exact ⟨e, after, shorter, _, l, script', he, hc, hl, hc', ht, hstates⟩

end ScriptFuzz
