import ScriptFuzz.Proofs.Language.Grammar
import ScriptFuzz.Proofs.Reading.Scopes

/-!
# Reading expressions

An expression that is spelled in front of a cursor is read exactly if it keeps the rules and the
pools have room for it, and then what is read has the code of the expression
(`Source.Level.reads_of_written`).

The grammar builds a product from the left, `Product.parseMore` collects the factors behind the
first one. So the statement about products is about any reader that goes on: reading a product `e`
and what follows it is the same as going on with factors collected so far that amount to `e`. It is
the same with sums. The derivation is what the induction is on.
-/

namespace ScriptFuzz

open Source Cursor ParseResult

/-! ## Code -/

/-- One more factor at the end of a product. -/
theorem Factor.emitMore_append (more : List (ProductOp × Factor)) (op : ProductOp) (f : Factor)
    (b : CodeBuilder) :
    Factor.emitMore (more ++ [(op, f)]) b =
      (f.emit (Factor.emitMore more b)).push (.arith op.arith) := by
  induction more generalizing b with
  | nil => rfl
  | cons first more ih => exact ih _

/-- One more product at the end of a sum. -/
theorem Product.emitMore_append (more : List (SumOp × Product)) (op : SumOp) (p : Product)
    (b : CodeBuilder) :
    Product.emitMore (more ++ [(op, p)]) b =
      (p.emit (Product.emitMore more b)).push (.arith op.arith) := by
  induction more generalizing b with
  | nil => rfl
  | cons first more ih => exact ih _

/-- What was read has the code of an expression, the scope has paid for the expression, and the
lexemes `rs` are left. -/
def ReadAs {α : Type} (emit : α → CodeBuilder → CodeBuilder) (names : Naming) (scope : Scope)
    (e : Term) (rs : List Lexeme) (r : α × Scope) (after : Cursor) : Prop :=
  emit r.1 = e.emit names ∧ r.2 = scope.spend e.ints (e.texts names) ∧ after.lexemes = rs

/-! ## What follows an expression -/

namespace Source.Level

/-- The marks that would continue an expression. -/
def continuing : Level → List Mark
  | factor => [.openParen]
  | product => [.openParen, .star, .slash]
  | sum => [.openParen, .star, .slash, .plus, .minus]

/-- What follows an expression does not continue it. -/
def Ends (level : Level) (rs : List Lexeme) : Prop :=
  ∀ m ∈ level.continuing, rs.head? ≠ some (.mark m)

theorem Ends.of_mark {level : Level} {m : Mark} {rs : List Lexeme} (h : m ∉ level.continuing) :
    level.Ends (.mark m :: rs) := by
  rintro m' hm' ⟨⟩
  exact h hm'

theorem Ends.mono {level level' : Level} {rs : List Lexeme} (h : level.Ends rs)
    (hsub : level'.continuing ⊆ level.continuing) : level'.Ends rs :=
  fun m hm => h m (hsub hm)

end Source.Level

namespace Cursor

theorem productOp?_eq_some {op : ProductOp} {c : Cursor} {ls : List Lexeme}
    (h : c.lexemes = .mark op.mark :: ls) :
    ∃ after, c.productOp? = some (op, after) ∧ after.val.lexemes = ls := by
  obtain ⟨after, s, hp, hl⟩ := pass?_eq_some h
  refine ⟨⟨after, s⟩, ?_, hl⟩
  cases op with
  | mul => rw [productOp?, show Mark.star = ProductOp.mul.mark from rfl, hp]
  | div =>
    have hstar : c.pass? (.mark .star) = none := pass?_eq_none (by rw [h]; simp [ProductOp.mark])
    rw [productOp?, hstar, show Mark.slash = ProductOp.div.mark from rfl, hp]

theorem sumOp?_eq_some {op : SumOp} {c : Cursor} {ls : List Lexeme}
    (h : c.lexemes = .mark op.mark :: ls) :
    ∃ after, c.sumOp? = some (op, after) ∧ after.val.lexemes = ls := by
  obtain ⟨after, s, hp, hl⟩ := pass?_eq_some h
  refine ⟨⟨after, s⟩, ?_, hl⟩
  cases op with
  | add => rw [sumOp?, show Mark.plus = SumOp.add.mark from rfl, hp]
  | sub =>
    have hplus : c.pass? (.mark .plus) = none := pass?_eq_none (by rw [h]; simp [SumOp.mark])
    rw [sumOp?, hplus, show Mark.minus = SumOp.sub.mark from rfl, hp]

theorem productOp?_eq_none {c : Cursor} (h : Level.product.Ends c.lexemes) :
    c.productOp? = none := by
  rw [productOp?, pass?_eq_none (h .star (by simp [Level.continuing])),
    pass?_eq_none (h .slash (by simp [Level.continuing]))]

theorem sumOp?_eq_none {c : Cursor} (h : Level.sum.Ends c.lexemes) : c.sumOp? = none := by
  rw [sumOp?, pass?_eq_none (h .plus (by simp [Level.continuing])),
    pass?_eq_none (h .minus (by simp [Level.continuing]))]

end Cursor

/-! ## Reading on a level -/

/-- How reading ends in front of an expression that is spelled on a level. What follows the factors
of a product, or the products of a sum, is left to whoever goes on. -/
def Source.Level.Reads (k : Known) (names : Naming) : Level → List Lexeme → Term → Prop
  | .factor, ts, e => ∀ (scope : Scope) (c : Cursor) (rs : List Lexeme),
      scope.Sees k.tree names → Level.factor.Ends rs → c.lexemes = ts ++ rs →
      (Factor.parse k scope c).Meets (scope.Fits names e) (ReadAs Factor.emit names scope e rs)
  | .product, ts, e => ∀ (scope : Scope) (c : Cursor) (rs : List Lexeme),
      scope.Sees k.tree names → Level.factor.Ends rs → c.lexemes = ts ++ rs →
      ∀ (ok : Prop) (R : Product × Scope → Cursor → Prop),
      (scope.Fits names e → ∀ first read scope' after h,
        ReadAs Product.emit names scope e rs (.mk first read.reverse, scope') after →
        (Product.parseMore k scope' first read after c h).Meets ok R) →
      (Product.parse k scope c).Meets (scope.Fits names e ∧ ok) R
  | .sum, ts, e => ∀ (scope : Scope) (c : Cursor) (rs : List Lexeme),
      scope.Sees k.tree names → Level.product.Ends rs → c.lexemes = ts ++ rs →
      ∀ (ok : Prop) (R : Sum × Scope → Cursor → Prop),
      (scope.Fits names e → ∀ first read scope' after h,
        ReadAs Sum.emit names scope e rs (.mk first read.reverse, scope') after →
        (Sum.parseMore k scope' first read after c h).Meets ok R) →
      (Sum.parse k scope c).Meets (scope.Fits names e ∧ ok) R

section Levels

variable {k : Known} {names : Naming} {scope : Scope} {c : Cursor} {ts us rs : List Lexeme}
  {e : Term}

theorem Product.meets_parse (hw : Level.product.Reads k names ts e) (hs : scope.Sees k.tree names)
    (hr : Level.product.Ends rs) (hc : c.lexemes = ts ++ rs) :
    (Product.parse k scope c).Meets (scope.Fits names e)
      (ReadAs Product.emit names scope e rs) := by
  refine (hw scope c rs hs (hr.mono (by decide)) hc True _ ?_).congr (.of_eq (and_true _))
  intro _ first read scope' after h hread
  rw [Product.parseMore, productOp?_eq_none (by rwa [hread.2.2])]
  exact ⟨trivial, hread⟩

theorem Sum.meets_parse (hw : Level.sum.Reads k names ts e) (hs : scope.Sees k.tree names)
    (hr : Level.sum.Ends rs) (hc : c.lexemes = ts ++ rs) :
    (Sum.parse k scope c).Meets (scope.Fits names e) (ReadAs Sum.emit names scope e rs) := by
  refine (hw scope c rs hs (hr.mono (by decide)) hc True _ ?_).congr (.of_eq (and_true _))
  intro _ first read scope' after h hread
  rw [Sum.parseMore, sumOp?_eq_none (by rwa [hread.2.2])]
  exact ⟨trivial, hread⟩

theorem Source.Level.reads_product (hw : Level.factor.Reads k names ts e) :
    Level.product.Reads k names ts e := by
  intro scope c rs hs hr hc ok R go
  have hf := hw scope c rs hs hr hc
  rw [Product.parse]
  split
  · next hp =>
    intro h
    exact hf.of_stopped hp h.1
  next first scope' after s hp =>
  obtain ⟨hfit, hemit, hread⟩ := hf.of_parsed hp
  exact (go hfit first [] scope' after s ⟨hemit, hread⟩).congr
    ⟨fun h => ⟨hfit, h⟩, And.right⟩

theorem Source.Level.reads_productOp (op : ProductOp) {l r : Term}
    (hl : Level.product.Reads k names ts l) (hr : Level.factor.Reads k names us r) :
    Level.product.Reads k names (ts ++ .mark op.mark :: us) (.arith op.arith l r) := by
  intro scope c rs hs hrs hc ok R go
  have hends : Level.factor.Ends (.mark op.mark :: us ++ rs) :=
    .of_mark (by cases op <;> simp [Level.continuing, ProductOp.mark])
  refine (hl scope c _ hs hends (by rw [hc, List.append_assoc])
    ((scope.spend l.ints (l.texts names)).Fits names r ∧ ok) R ?_).congr
    (by rw [Scope.fits_arith, and_assoc])
  rintro hfit first read _ after h ⟨hemit, rfl, hafter⟩
  obtain ⟨⟨after₂, s₂⟩, ho, hafter₂⟩ := productOp?_eq_some hafter
  have hf := hr _ after₂ rs (hs.spend hfit.2) hrs hafter₂
  rw [Product.parseMore]
  simp only [ho]
  split
  · next hp =>
    intro h
    exact hf.of_stopped hp h.1
  next factor scope₃ after₃ s₃ hp =>
  obtain ⟨hfit', hemit', hscope₃, hafter₃⟩ := hf.of_parsed hp
  refine (go (Scope.fits_arith.2 ⟨hfit, hfit'⟩) first _ scope₃ after₃ _ ⟨?_, ?_, hafter₃⟩).congr
    ⟨fun h => ⟨hfit', h⟩, And.right⟩
  · funext b
    dsimp only at hemit hemit'
    rw [Product.emit, List.reverse_cons, Factor.emitMore_append, ← Product.emit, hemit, hemit',
      Term.emit]
  · rw [hscope₃, Scope.spend_spend, Term.ints, Term.texts]

theorem Source.Level.reads_sum (hw : Level.product.Reads k names ts e) :
    Level.sum.Reads k names ts e := by
  intro scope c rs hs hr hc ok R go
  have hp := Product.meets_parse hw hs hr hc
  rw [Sum.parse]
  split
  · next hq =>
    intro h
    exact hp.of_stopped hq h.1
  next first scope' after s hq =>
  obtain ⟨hfit, hemit, hread⟩ := hp.of_parsed hq
  exact (go hfit first [] scope' after s ⟨hemit, hread⟩).congr
    ⟨fun h => ⟨hfit, h⟩, And.right⟩

theorem Source.Level.reads_sumOp (op : SumOp) {l r : Term}
    (hl : Level.sum.Reads k names ts l) (hr : Level.product.Reads k names us r) :
    Level.sum.Reads k names (ts ++ .mark op.mark :: us) (.arith op.arith l r) := by
  intro scope c rs hs hrs hc ok R go
  have hends : Level.product.Ends (.mark op.mark :: us ++ rs) :=
    .of_mark (by cases op <;> simp [Level.continuing, SumOp.mark])
  refine (hl scope c _ hs hends (by rw [hc, List.append_assoc])
    ((scope.spend l.ints (l.texts names)).Fits names r ∧ ok) R ?_).congr
    (by rw [Scope.fits_arith, and_assoc])
  rintro hfit first read _ after h ⟨hemit, rfl, hafter⟩
  obtain ⟨⟨after₂, s₂⟩, ho, hafter₂⟩ := sumOp?_eq_some hafter
  have hp := Product.meets_parse hr (c := after₂) (hs.spend hfit.2) hrs hafter₂
  rw [Sum.parseMore]
  simp only [ho]
  split
  · next hq =>
    intro h
    exact hp.of_stopped hq h.1
  next product scope₃ after₃ s₃ hq =>
  obtain ⟨hfit', hemit', hscope₃, hafter₃⟩ := hp.of_parsed hq
  refine (go (Scope.fits_arith.2 ⟨hfit, hfit'⟩) first _ scope₃ after₃ _ ⟨?_, ?_, hafter₃⟩).congr
    ⟨fun h => ⟨hfit', h⟩, And.right⟩
  · funext b
    dsimp only at hemit hemit'
    rw [Sum.emit, List.reverse_cons, Product.emitMore_append, ← Sum.emit, hemit, hemit', Term.emit]
  · rw [hscope₃, Scope.spend_spend, Term.ints, Term.texts]

end Levels

/-! ## Names -/

/-- A factor that begins with a name. -/
theorem Factor.parse_of_named (k : Known) (scope : Scope) {c : Cursor} {ts rs : List Lexeme}
    {x : String} (hx : Named ts x) (hc : c.lexemes = ts ++ rs) :
    ∃ pos after h, Factor.parse k scope c = Factor.parseNamed k scope x pos after c h ∧
      after.lexemes = rs := by
  cases hx with
  | plain =>
    obtain ⟨t, after, s, ht, hl, ha⟩ := (meets_take k.fin .value hc).exists_parsed
    refine ⟨t.pos, after, s, ?_, ha⟩
    rw [Factor.parse]
    simp only [ht, hl]
  | dollar =>
    obtain ⟨t, after, s, ht, hl, ha⟩ := (meets_take k.fin .value hc).exists_parsed
    obtain ⟨⟨y, pos⟩, after₂, s₂, hi, rfl, ha₂⟩ := (meets_ident k.fin ha).exists_parsed
    refine ⟨pos, after₂, by omega, ?_, ha₂⟩
    rw [Factor.parse]
    simp only [ht, hl, hi]

/-- The arguments of a call are read one after the other. -/
theorem Sum.meets_parseArguments {k : Known} {names : Naming} {rs : List Lexeme}
    {arguments : List (List Lexeme × Term)} (hne : arguments ≠ [])
    (ha : ∀ a ∈ arguments, Level.sum.Reads k names a.1 a.2) {scope : Scope} (read : List Sum)
    {c start : Cursor} (h : c.rest.length ≤ start.rest.length) (hs : scope.Sees k.tree names)
    (hc : c.lexemes = commas (arguments.map (·.1)) ++ .mark .closeParen :: rs) :
    (Sum.parseArguments k scope read c start h).Meets
      (scope.FitsAll names (arguments.map (·.2)))
      fun r after => ∃ more, r.1 = read.reverse ++ more ∧ more.length = arguments.length ∧
        Sum.emitAll more = Term.emitAll names (arguments.map (·.2)) ∧
        r.2 = scope.spend (Term.intsAll (arguments.map (·.2)))
          (Term.textsAll names (arguments.map (·.2))) ∧
        after.lexemes = rs := by
  induction arguments generalizing scope read c with
  | nil => exact absurd rfl hne
  | cons a arguments ih =>
    obtain ⟨ts, e⟩ := a
    obtain ⟨he, ha⟩ := List.forall_mem_cons.1 ha
    rw [List.map_cons, Scope.fitsAll_cons, Sum.parseArguments]
    cases arguments with
    | nil =>
      have hp := Sum.meets_parse he hs (.of_mark (by decide)) hc
      split
      · next hq =>
        intro h
        exact hp.of_stopped hq h.1
      next argument scope' after s hq =>
      obtain ⟨hfit, hemit, hscope, hafter⟩ := hp.of_parsed hq
      rw [pass?_eq_none (by rw [hafter]; simp)]
      have hok : True ↔ scope.Fits names e ∧
          (scope.spend e.ints (e.texts names)).FitsAll names [] :=
        ⟨fun _ => ⟨hfit, (hs.spend hfit.2).fitsAll_nil⟩, fun _ => trivial⟩
      refine (((meets_expect k.fin hafter).weaken _).bind_true
        fun _ after₂ s₂ hafter₂ => ?_).congr hok
      refine ⟨trivial, [argument], by simp, rfl, ?_, hscope, hafter₂⟩
      funext b
      dsimp only at hemit
      simp only [Sum.emitAll, hemit, List.map_nil, Term.emitAll]
    | cons b arguments =>
      rw [List.map_cons, List.map_cons, commas_cons, List.append_assoc] at hc
      have hp := Sum.meets_parse he hs (.of_mark (by decide)) hc
      split
      · next hq =>
        intro h
        exact hp.of_stopped hq h.1
      next argument scope' after s hq =>
      obtain ⟨hfit, hemit, rfl, hafter⟩ := hp.of_parsed hq
      obtain ⟨after₂, s₂, hpass, hafter₂⟩ := pass?_eq_some hafter
      simp only [hpass]
      refine (ih (by simp) ha (argument :: read) (by omega) (hs.spend hfit.2) hafter₂).imp
        ⟨fun h => ⟨hfit, h⟩, And.right⟩ ?_
      rintro - r after₃ ⟨more, hr, hlen, hemits, hscope, hafter₃⟩
      refine ⟨argument :: more, by simp [hr], by simp [hlen], ?_, ?_, hafter₃⟩
      · funext b
        dsimp only at hemit
        rw [Sum.emitAll, hemit, hemits, Term.emitAll]
      · rw [hscope, Scope.spend_spend]
        rfl

namespace Factor

variable {k : Known} {names : Naming} {scope : Scope} {c start : Cursor} {x : String}

theorem emit_name (b : CodeBuilder) :
    (Factor.name x ((names.resolve? x).getD .template)).emit b = (Term.name x).emit names b := by
  rw [Term.emit]
  cases names.resolve? x with
  | none => rfl
  | some named => cases named <;> rfl

theorem emit_call {arguments : List Sum} {es : List Term}
    (hlen : arguments.length = es.length)
    (h : Sum.emitAll arguments = Term.emitAll names es) (b : CodeBuilder) :
    (Factor.call x (names.callee x) arguments).emit b = (Term.call x es).emit names b := by
  rw [Term.emit]
  cases names.callee x with
  | sizeof => rw [Factor.emit, h]
  | function i => rw [Factor.emit, h]
  | host => rw [Factor.emit, h, hlen]

/-- A name that is not called. -/
theorem meets_parseNamed_name (pos : Position) (h : c.rest.length < start.rest.length)
    (hs : scope.Sees k.tree names) (hends : Level.factor.Ends c.lexemes) :
    (parseNamed k scope x pos c start h).Meets (scope.Fits names (.name x))
      (ReadAs Factor.emit names scope (.name x) c.lexemes) := by
  rw [parseNamed, pass?_eq_none (hends .openParen (by decide))]
  refine (meets_ofCheck (Scope.passes_use hs x)).imp .rfl ?_
  rintro - v after ⟨rfl, rfl⟩
  exact ⟨funext fun b => emit_name b, by rw [Term.ints], rfl⟩

/-- A name that is called. -/
theorem meets_parseNamed_call (pos : Position) (h : c.rest.length < start.rest.length)
    {arguments : List (List Lexeme × Term)} {rs : List Lexeme} (hs : scope.Sees k.tree names)
    (hw : ∀ a ∈ arguments, Term.Written .sum a.1 a.2)
    (ha : ∀ a ∈ arguments, Level.sum.Reads k names a.1 a.2)
    (hc : c.lexemes =
      .mark .openParen :: commas (arguments.map (·.1)) ++ .mark .closeParen :: rs) :
    (parseNamed k scope x pos c start h).Meets
      (scope.Fits names (.call x (arguments.map (·.2))))
      (ReadAs Factor.emit names scope (.call x (arguments.map (·.2))) rs) := by
  obtain ⟨after, s, hp, hafter⟩ := pass?_eq_some hc
  rw [parseNamed, Scope.fits_call]
  simp only [hp]
  cases arguments with
  | nil =>
    obtain ⟨after₂, s₂, hp₂, hafter₂⟩ := pass?_eq_some hafter
    simp only [hp₂]
    refine (meets_ofCheck (Scope.passes_call hs x [])).imp ?_ ?_
    · rw [List.map_nil, Term.intsAll, Term.textsAll, Scope.spend_zero]
      exact (and_iff_right hs.fitsAll_nil).symm
    · rintro - v after ⟨rfl, rfl⟩
      refine ⟨funext fun b => emit_call rfl rfl b, ?_, hafter₂⟩
      rw [Term.ints, Term.texts, List.map_nil, Term.intsAll, Term.textsAll, Nat.zero_add]
  | cons a arguments =>
    obtain ⟨l, ls, hl, hne⟩ := (hw a (by simp)).begins
    have hnot : after.pass? (.mark .closeParen) = none := by
      refine pass?_eq_none ?_
      rw [hafter]
      cases arguments <;> simpa [hl] using hne
    simp only [hnot]
    refine (Sum.meets_parseArguments (by simp) ha [] _ hs hafter).bind ?_
    rintro hfit ⟨args, scope'⟩ after₂ s₂ ⟨more, hargs, hlen, hemits, rfl, hafter₂⟩
    obtain rfl : args = more := hargs
    have hcheck := Scope.passes_call (hs.spend hfit.2) x args
    rw [hlen] at hcheck
    refine (meets_ofCheck hcheck).imp (by rw [List.length_map]) ?_
    rintro - v after ⟨rfl, rfl⟩
    refine ⟨funext fun b => emit_call (by simpa using hlen) hemits b, ?_, hafter₂⟩
    rw [Scope.spend_spend, Term.ints, Term.texts]
    rfl

end Factor

/-! ## Literals and signs -/

namespace Source.Level

variable {k : Known} {names : Naming}

theorem reads_int (v : UInt64) : Level.factor.Reads k names [.integer v] (.int v.toNat) := by
  intro scope c rs hs hr hc
  obtain ⟨t, after, s, ht, hl, ha⟩ := (meets_take k.fin .value hc).exists_parsed
  have hvalid : (Term.int v.toNat).Valid names ↔ v.toNat < 2 ^ (63 : Nat) := by
    rw [Term.Valid]
    omega
  rw [Factor.parse]
  simp only [ht, hl]
  split
  · next hlt =>
    refine (meets_ofCheck (Scope.passes_int hs _)).imp ?_ ?_
    · rw [Scope.Fits, Term.ints, Term.texts, and_iff_right (hvalid.2 hlt)]
    · rintro - v after ⟨rfl, rfl⟩
      refine ⟨?_, by rw [Term.ints, Term.texts], ha⟩
      funext b
      rw [Factor.emit, Term.emit, Int64.ofInt_eq_ofNat]
  · next hlt =>
    intro hfit
    exact hlt (hvalid.1 hfit.1)

/-- A minus sign belongs to the literal behind it, so there is room for one number more. -/
theorem reads_minus (v : UInt64) :
    Level.factor.Reads k names [.mark .minus, .integer v] (.int (-v.toNat)) := by
  intro scope c rs hs hr hc
  obtain ⟨t, after, s, ht, hl, ha⟩ := (meets_take k.fin .value hc).exists_parsed
  rw [Factor.parse]
  simp only [ht, hl]
  refine ((meets_integer k.fin ha).behind _).bind_true ?_
  rintro ⟨n, pos⟩ after₂ s₂ ⟨rfl, ha₂⟩
  have hvalid : (Term.int (-n.toNat)).Valid names ↔ n.toNat ≤ 2 ^ (63 : Nat) := by
    rw [Term.Valid]
    omega
  dsimp only at hvalid ⊢
  split
  · next hle =>
    refine (meets_ofCheck (Scope.passes_int hs _)).imp ?_ ?_
    · rw [Scope.Fits, Term.ints, Term.texts, and_iff_right (hvalid.2 hle)]
    · rintro - v after ⟨rfl, rfl⟩
      refine ⟨?_, by rw [Term.ints, Term.texts], ha₂⟩
      funext b
      rw [Factor.emit, Term.emit]
  · next hle =>
    intro hfit
    exact hle (hvalid.1 hfit.1)

theorem reads_plus {ts : List Lexeme} {e : Term} (h : Level.factor.Reads k names ts e) :
    Level.factor.Reads k names (.mark .plus :: ts) e := by
  intro scope c rs hs hr hc
  obtain ⟨t, after, s, ht, hl, ha⟩ := (meets_take k.fin .value hc).exists_parsed
  rw [Factor.parse]
  simp only [ht, hl]
  exact (h scope after rs hs hr ha).behind _

theorem reads_text (s : String) : Level.factor.Reads k names [.string s] (.text s) := by
  intro scope c rs hs hr hc
  obtain ⟨t, after, s, ht, hl, ha⟩ := (meets_take k.fin .value hc).exists_parsed
  rw [Factor.parse]
  simp only [ht, hl]
  refine (meets_ofCheck (Scope.passes_text hs _)).imp ?_ ?_
  · rw [Scope.Fits, Term.Valid, Term.ints, Term.texts, true_and]
  · rintro - v after ⟨rfl, rfl⟩
    refine ⟨?_, by rw [Term.ints, Term.texts], ha⟩
    funext b
    rw [Factor.emit, Term.emit]

/-! ## Every expression -/

/-- Every expression that is spelled is read, if it keeps the rules and there is room. -/
theorem reads_of_written (k : Known) (names : Naming) {level : Level} {ts : List Lexeme}
    {e : Term} (hw : e.Written level ts) : level.Reads k names ts e := by
  induction hw with
  | int v => exact reads_int v
  | minus v => exact reads_minus v
  | plus _ ih => exact reads_plus ih
  | text s => exact reads_text s
  | name hx =>
    intro scope c rs hs hr hc
    obtain ⟨pos, after, h, hparse, ha⟩ := Factor.parse_of_named k scope hx hc
    rw [hparse, ← ha]
    exact Factor.meets_parseNamed_name pos h hs (ha ▸ hr)
  | call hf hw ih =>
    intro scope c rs hs hr hc
    simp only [List.append_assoc] at hc
    obtain ⟨pos, after, h, hparse, ha⟩ := Factor.parse_of_named k scope hf hc
    rw [hparse]
    exact Factor.meets_parseNamed_call pos h hs hw ih (by simpa using ha)
  | factor _ ih => exact reads_product ih
  | productOp op _ _ ihl ihr => exact reads_productOp op ihl ihr
  | product _ ih => exact reads_sum ih
  | sumOp op _ _ ihl ihr => exact reads_sumOp op ihl ihr

end Source.Level

end ScriptFuzz
