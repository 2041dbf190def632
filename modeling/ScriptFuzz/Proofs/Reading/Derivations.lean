import ScriptFuzz.Proofs.Language.Grammar
import ScriptFuzz.Proofs.Reading.Result

/-!
# What is read has a derivation

Whenever a reader of the script language has read something, the lexemes that it took are those of a
derivation in the grammar (`ScriptTree.written_of_parse` for whole scripts). Nothing is said here
about which tree was read; `Reading/Expressions` and the modules after it say that, starting from a
derivation.

The proofs follow the recursion of the readers. A reader of what follows an operator continues a
derivation for what stands before it, since `*` and `+` group to the left.
-/

namespace ScriptFuzz

open Source Cursor

namespace Cursor

theorem productOp?_spec {c : Cursor} {op : ProductOp}
    {after : { after : Cursor // after.rest.length < c.rest.length }}
    (h : c.productOp? = some (op, after)) :
    c.lexemes = .mark op.mark :: after.val.lexemes := by
  unfold productOp? at h
  split at h
  · next hstar => cases h; exact lexemes_of_pass? hstar
  · next hslash => cases h; exact lexemes_of_pass? hslash
  · cases h

theorem sumOp?_spec {c : Cursor} {op : SumOp}
    {after : { after : Cursor // after.rest.length < c.rest.length }}
    (h : c.sumOp? = some (op, after)) :
    c.lexemes = .mark op.mark :: after.val.lexemes := by
  unfold sumOp? at h
  split at h
  · next hplus => cases h; exact lexemes_of_pass? hplus
  · next hminus => cases h; exact lexemes_of_pass? hminus
  · cases h

end Cursor

/-! ## Expressions -/

mutual

theorem Factor.gives_parse (k : Known) (scope : Scope) (c : Cursor) :
    (Factor.parse k scope c).Gives fun _ after =>
      c.Spells after fun ts => ∃ e, Term.Written .factor ts e := by
  rw [Factor.parse]
  split
  · trivial
  next t after shorter ht =>
  have hc := (gives_take k.fin .value c).of_parsed ht
  split
  · next x hx =>
    rw [hx] at hc
    refine (Factor.gives_parseNamed k scope x t.pos after c shorter _ (.plain x)).imp ?_
    intro _ after' h
    exact .cons hc h
  · next m hm =>
    rw [hm] at hc
    split
    -- a name with a dollar sign
    · split
      · trivial
      next x pos after₂ shorter₂ hi =>
      have hc₂ := (gives_ident k.fin after).of_parsed hi
      refine (Factor.gives_parseNamed k scope x pos after₂ c (by omega) _ (.dollar x)).imp ?_
      intro _ after' h
      exact .cons hc (.cons hc₂ h)
    -- a literal with a minus sign
    · refine ((gives_integer k.fin after).behind _).bind ?_
      rintro ⟨v, pos⟩ after₂ s hc₂
      dsimp only
      split
      · refine ParseResult.gives_ofCheck ?_
        intro _
        exact .cons hc (.cons hc₂ (.nil ⟨_, .minus v⟩))
      · trivial
    -- a plus sign, which adds nothing to the tree
    · refine ((Factor.gives_parse k scope after).behind _).imp ?_
      intro _ after' h
      refine .cons hc (h.imp ?_)
      rintro us ⟨e, he⟩
      exact ⟨e, .plus he⟩
    · trivial
  · next v hv =>
    rw [hv] at hc
    split
    · refine ParseResult.gives_ofCheck ?_
      intro _
      exact .cons hc (.nil ⟨_, .int v⟩)
    · trivial
  · next s hs =>
    rw [hs] at hc
    refine ParseResult.gives_ofCheck ?_
    intro _
    exact .cons hc (.nil ⟨_, .text s⟩)
  · trivial
  · trivial
  · trivial
termination_by (c.rest.length, 0)

theorem Factor.gives_parseNamed (k : Known) (scope : Scope) (x : String) (pos : Position)
    (c start : Cursor) (h : c.rest.length < start.rest.length) (ns : List Lexeme)
    (hn : Named ns x) :
    (Factor.parseNamed k scope x pos c start h).Gives fun _ after =>
      c.Spells after fun us => ∃ e, Term.Written .factor (ns ++ us) e := by
  rw [Factor.parseNamed]
  split
  · exact ParseResult.gives_ofCheck fun _ => ⟨[], rfl, .name x, by simpa using .name hn⟩
  next after shorter ho =>
  have hc := lexemes_of_pass? ho
  split
  · next after₂ shorter₂ hcl =>
    have hc₂ := lexemes_of_pass? hcl
    have hw : Term.Written .factor (ns ++ .mark .openParen :: commas [] ++ [.mark .closeParen])
        (.call x []) := @Term.Written.call ns x [] hn (by simp)
    refine ParseResult.gives_ofCheck ?_
    intro _
    exact .cons hc (.cons hc₂ (.nil ⟨.call x [], by simpa [commas] using hw⟩))
  · refine (Sum.gives_parseArguments k scope [] after start (by omega)).bind ?_
    rintro ⟨arguments, scope'⟩ after₂ s ⟨pieces, hne, hp, hc₂⟩
    have hw := Term.Written.call hn hp
    have hall : c.lexemes =
        .mark .openParen :: commas (pieces.map (·.1)) ++ [.mark .closeParen] ++ after₂.lexemes := by
      rw [hc, hc₂]
      simp
    refine ParseResult.gives_ofCheck ?_
    intro _
    exact ⟨_, hall, .call x (pieces.map (·.2)), by simpa using hw⟩
termination_by (c.rest.length, 1)

theorem Product.gives_parse (k : Known) (scope : Scope) (c : Cursor) :
    (Product.parse k scope c).Gives fun _ after =>
      c.Spells after fun ts => ∃ e, Term.Written .product ts e := by
  rw [Product.parse]
  split
  · trivial
  next first scope' after shorter hf =>
  obtain ⟨ts, hts, e, he⟩ := (Factor.gives_parse k scope c).of_parsed hf
  refine (Product.gives_parseMore k scope' first [] after c shorter ts e (.factor he)).imp ?_
  intro _ after' h
  exact .append hts h
termination_by (c.rest.length, 2)

theorem Product.gives_parseMore (k : Known) (scope : Scope) (first : Factor)
    (read : List (ProductOp × Factor)) (c start : Cursor)
    (h : c.rest.length < start.rest.length) (ts : List Lexeme) (e : Term)
    (he : Term.Written .product ts e) :
    (Product.parseMore k scope first read c start h).Gives fun _ after =>
      c.Spells after fun us => ∃ e', Term.Written .product (ts ++ us) e' := by
  rw [Product.parseMore]
  split
  · exact ⟨[], rfl, e, by simpa using he⟩
  next op after shorter ho =>
  have hc := productOp?_spec ho
  split
  · trivial
  next factor scope' after₂ shorter₂ hf =>
  obtain ⟨us, hus, e₂, he₂⟩ := (Factor.gives_parse k scope after).of_parsed hf
  refine (Product.gives_parseMore k scope' first ((op, factor) :: read) after₂ start (by omega) _ _
    (.productOp op he he₂)).imp ?_
  intro _ after' h
  exact .cons hc (.append hus (by simpa using h))
termination_by (c.rest.length, 1)

theorem Sum.gives_parse (k : Known) (scope : Scope) (c : Cursor) :
    (Sum.parse k scope c).Gives fun _ after =>
      c.Spells after fun ts => ∃ e, Term.Written .sum ts e := by
  rw [Sum.parse]
  split
  · trivial
  next first scope' after shorter hf =>
  obtain ⟨ts, hts, e, he⟩ := (Product.gives_parse k scope c).of_parsed hf
  refine (Sum.gives_parseMore k scope' first [] after c shorter ts e (.product he)).imp ?_
  intro _ after' h
  exact .append hts h
termination_by (c.rest.length, 4)

theorem Sum.gives_parseMore (k : Known) (scope : Scope) (first : Product)
    (read : List (SumOp × Product)) (c start : Cursor)
    (h : c.rest.length < start.rest.length) (ts : List Lexeme) (e : Term)
    (he : Term.Written .sum ts e) :
    (Sum.parseMore k scope first read c start h).Gives fun _ after =>
      c.Spells after fun us => ∃ e', Term.Written .sum (ts ++ us) e' := by
  rw [Sum.parseMore]
  split
  · exact ⟨[], rfl, e, by simpa using he⟩
  next op after shorter ho =>
  have hc := sumOp?_spec ho
  split
  · trivial
  next product scope' after₂ shorter₂ hp =>
  obtain ⟨us, hus, e₂, he₂⟩ := (Product.gives_parse k scope after).of_parsed hp
  refine (Sum.gives_parseMore k scope' first ((op, product) :: read) after₂ start (by omega) _ _
    (.sumOp op he he₂)).imp ?_
  intro _ after' h
  exact .cons hc (.append hus (by simpa using h))
termination_by (c.rest.length, 3)

theorem Sum.gives_parseArguments (k : Known) (scope : Scope) (read : List Sum)
    (c start : Cursor) (h : c.rest.length ≤ start.rest.length) :
    (Sum.parseArguments k scope read c start h).Gives fun _ after =>
      ∃ pieces : List (List Lexeme × Term), pieces ≠ [] ∧
        (∀ a ∈ pieces, Term.Written .sum a.1 a.2) ∧
        c.lexemes = commas (pieces.map (·.1)) ++ .mark .closeParen :: after.lexemes := by
  rw [Sum.parseArguments]
  split
  · trivial
  next argument scope' after shorter ha =>
  obtain ⟨ts, hts, e, he⟩ := (Sum.gives_parse k scope c).of_parsed ha
  split
  · next after₂ shorter₂ hcomma =>
    have hc₂ := lexemes_of_pass? hcomma
    refine (Sum.gives_parseArguments k scope' (argument :: read) after₂ start (by omega)).imp ?_
    rintro - after' ⟨pieces, hne, hp, hc₃⟩
    obtain _ | ⟨piece, pieces⟩ := pieces
    · exact absurd rfl hne
    refine ⟨(ts, e) :: piece :: pieces, by simp, ?_, ?_⟩
    · exact List.forall_mem_cons.2 ⟨he, hp⟩
    · rw [hts, hc₂, hc₃]
      simp
  · refine ((gives_expect k.fin .closeParen after).weaken (by omega)).bind ?_
    intro t after₂ s hc₂
    have hall : c.lexemes = ts ++ .mark .closeParen :: after₂.lexemes := by rw [hts, hc₂]
    exact ⟨[(ts, e)], by simp, by simpa using he, hall⟩
termination_by (c.rest.length, 5)

end

/-! ## Statements and functions -/

namespace ScriptStatement

theorem gives_parseValue {start : Cursor} (k : Known) (scope : Scope) (c : Cursor)
    (h : c.rest.length ≤ start.rest.length) :
    (parseValue k scope c h).Gives fun _ after =>
      ∃ ts e, Term.Written .sum ts e ∧ c.lexemes = ts ++ .mark .semicolon :: after.lexemes := by
  refine ((Sum.gives_parse k scope c).weaken h).bind ?_
  intro v after s hv
  obtain ⟨ts, hts, e, he⟩ := hv
  refine ((gives_expect k.fin .semicolon after).behind _).bind ?_
  intro t after₂ s₂ hc
  exact ⟨ts, e, he, by rw [hts, hc]⟩

theorem gives_parseNamed {start : Cursor} (k : Known) (scope : Scope) (x : String)
    (pos : Position) (c : Cursor) (h : c.rest.length < start.rest.length) {ns : List Lexeme}
    (hn : Named ns x) :
    (parseNamed k scope x pos c h).Gives fun _ after =>
      c.Spells after fun us => ∃ s, Statement.Written (ns ++ us) s := by
  rw [parseNamed]
  split
  · next after shorter ha =>
    have hc := lexemes_of_pass? ha
    split
    · trivial
    refine (gives_parseValue k scope after _).bind ?_
    rintro ⟨value, scope'⟩ after₂ s ⟨ts, e, he, hc₂⟩
    have hall : after.lexemes = ts ++ [.mark .semicolon] ++ after₂.lexemes := by
      rw [hc₂]
      simp
    have hw := Statement.Written.assign hn he
    exact .cons hc (.append hall (.nil ⟨.assign x e, by simpa using hw⟩))
  -- the name was the first factor, and the rest of the expression is read level by level
  · refine (Factor.gives_parseNamed k scope x pos c start h ns hn).bind ?_
    rintro ⟨factor, scope₁⟩ after₁ s₁ ⟨ts, hts, e₁, he₁⟩
    refine (Product.gives_parseMore k scope₁ factor [] after₁ start s₁ _ _ (.factor he₁)).bind ?_
    rintro ⟨product, scope₂⟩ after₂ s₂ ⟨us, hus, e₂, he₂⟩
    refine (Sum.gives_parseMore k scope₂ product [] after₂ start s₂ _ _ (.product he₂)).bind ?_
    rintro ⟨value, scope₃⟩ after₃ s₃ ⟨vs, hvs, e₃, he₃⟩
    refine ((gives_expect k.fin .semicolon after₃).behind _).bind ?_
    intro t after₄ s₄ hc
    have hw : Term.Written .sum (ns ++ (ts ++ us ++ vs)) e₃ := by simpa using he₃
    have hall : c.lexemes = ts ++ us ++ vs ++ [.mark .semicolon] ++ after₄.lexemes := by
      rw [hts, hus, hvs, hc]
      simp
    exact ⟨_, hall, .evaluate e₃, by simpa using Statement.Written.evaluate hn hw⟩

theorem gives_parseDeclare {start : Cursor} (k : Known) (scope : Scope) (pos : Position)
    (c : Cursor) (h : c.rest.length < start.rest.length) (ns : List Lexeme)
    (hn : ∀ x, Named (ns ++ [.ident x]) x) :
    (parseDeclare k scope pos c h : ParseResult _ start).Gives fun _ after =>
      c.Spells after fun us => ∃ s, Statement.Written (.keyword .var :: ns ++ us) s := by
  refine ((gives_ident k.fin c).behind _).bind ?_
  rintro ⟨x, _⟩ after₁ s₁ hc₁
  refine ((gives_expect k.fin .assign after₁).behind _).bind ?_
  intro t after₂ s₂ hc₂
  refine (gives_parseValue k scope after₂ _).bind ?_
  rintro ⟨value, scope'⟩ after₃ s₃ ⟨ts, e, he, hc₃⟩
  dsimp only
  split
  · have hw := Statement.Written.declare (hn x) he
    have hall : after₂.lexemes = ts ++ [.mark .semicolon] ++ after₃.lexemes := by
      rw [hc₃]
      simp
    exact .cons hc₁ (.cons hc₂ (.append hall (.nil ⟨_, by simpa using hw⟩)))
  · trivial

theorem gives_parse (k : Known) (scope : Scope) (c : Cursor) :
    (parse k scope c).Gives fun _ after =>
      c.Spells after fun ts => ∃ s, Statement.Written ts s := by
  refine (gives_take k.fin .statement c).bind ?_
  intro t after s hc
  split
  · next hv =>
    rw [hv] at hc
    split
    -- the dollar sign before a new variable
    · next after₂ s₂ hd =>
      have hc₂ := lexemes_of_pass? hd
      refine (gives_parseDeclare k scope t.pos after₂ _ [.mark .dollar] .dollar).imp ?_
      intro _ after₃ h
      exact .cons hc (.cons hc₂ h)
    · refine (gives_parseDeclare k scope t.pos after s [] .plain).imp ?_
      intro _ after₃ h
      exact .cons hc h
  · next hr =>
    rw [hr] at hc
    refine (gives_parseValue k scope after _).bind ?_
    rintro ⟨value, scope'⟩ after₂ s₂ ⟨ts, e, he, hc₂⟩
    have hall : after.lexemes = ts ++ [.mark .semicolon] ++ after₂.lexemes := by
      rw [hc₂]
      simp
    exact .cons hc (.append hall (.nil ⟨_, by simpa using Statement.Written.result he⟩))
  · next hd =>
    rw [hd] at hc
    refine ((gives_ident k.fin after).behind _).bind ?_
    rintro ⟨x, pos⟩ after₂ s₂ hc₂
    refine (gives_parseNamed k scope x pos after₂ s₂ (.dollar x)).imp ?_
    intro _ after₃ h
    exact .cons hc (.cons hc₂ h)
  · next x hx =>
    rw [hx] at hc
    refine (gives_parseNamed k scope x t.pos after s (.plain x)).imp ?_
    intro _ after₃ h
    exact .cons hc h
  · trivial

theorem gives_parseBody (k : Known) (scope : Scope) (read : List ScriptStatement)
    (c start : Cursor) (h : c.rest.length ≤ start.rest.length) :
    (parseBody k scope read c start h).Gives fun _ after =>
      ∃ body : List (List Lexeme × Statement), (∀ s ∈ body, s.2.Written s.1) ∧
        c.lexemes = (body.map (·.1)).flatten ++ .mark .closeBrace :: after.lexemes := by
  rw [parseBody]
  split
  · next after s hc => exact ⟨[], by simp, lexemes_of_pass? hc⟩
  split
  · trivial
  next statement scope' after s hs =>
  obtain ⟨ts, hts, st, hst⟩ := (gives_parse k scope c).of_parsed hs
  refine (gives_parseBody k scope' (statement :: read) after start (by omega)).imp ?_
  rintro - after' ⟨body, hb, hc⟩
  refine ⟨(ts, st) :: body, List.forall_mem_cons.2 ⟨hst, hb⟩, ?_⟩
  rw [hts, hc]
  simp
termination_by c.rest.length

end ScriptStatement

namespace Function

theorem gives_parseParams (k : Known) (read : List String) (c start : Cursor)
    (h : c.rest.length ≤ start.rest.length) :
    (parseParams k read c start h).Gives fun _ after =>
      ∃ params : List String, params ≠ [] ∧
        c.lexemes = commas (params.map fun x => [.ident x]) ++
          .mark .closeParen :: after.lexemes := by
  rw [parseParams]
  split
  · trivial
  next x pos after s hx =>
  have hc := (gives_ident k.fin c).of_parsed hx
  split
  · trivial
  split
  · next after₂ s₂ hcomma =>
    have hc₂ := lexemes_of_pass? hcomma
    refine (gives_parseParams k (x :: read) after₂ start (by omega)).imp ?_
    rintro - after' ⟨params, hne, hc₃⟩
    obtain _ | ⟨y, params⟩ := params
    · exact absurd rfl hne
    refine ⟨x :: y :: params, by simp, ?_⟩
    rw [hc, hc₂, hc₃]
    simp
  · refine ((gives_expect k.fin .closeParen after).weaken (by omega)).bind ?_
    intro t after₂ s₂ hc₂
    refine ⟨[x], by simp, ?_⟩
    rw [hc, hc₂]
    rfl
termination_by c.rest.length

theorem gives_parse (k : Known) (c : Cursor) :
    (parse k c).Gives fun _ after =>
      ∃ ts, Lexeme.keyword .function :: c.lexemes = ts ++ after.lexemes ∧
        ∃ f : Source.Function, f.Written ts := by
  refine (gives_ident k.fin c).bind ?_
  intro r after s hc
  obtain ⟨name, pos⟩ := r
  dsimp only
  split
  · trivial
  refine ((gives_expect k.fin .openParen after).behind _).bind ?_
  intro t after₂ s₂ hc₂
  refine ParseResult.Gives.bind (Q := fun _ after => ∃ params : List String,
    after₂.lexemes = commas (params.map fun x => [.ident x]) ++
      .mark .closeParen :: after.lexemes) ?_ ?_
  · split
    · next after₃ s₃ hp => exact ⟨[], lexemes_of_pass? hp⟩
    · refine (gives_parseParams k [] after₂ c (Cursor.le_of_lt s₂)).imp ?_
      rintro - after₃ ⟨names, -, hnames⟩
      exact ⟨names, hnames⟩
  rintro params after₃ s₃ ⟨names, hc₃⟩
  refine ((gives_expect k.fin .openBrace after₃).behind _).bind ?_
  intro t after₄ s₄ hc₄
  refine (ScriptStatement.gives_parseBody k { params } [] after₄ c (by omega)).bind ?_
  rintro ⟨body, scope⟩ after₅ s₅ ⟨statements, hb, hc₅⟩
  refine ⟨_, ?_, _, .mk name names hb⟩
  rw [hc, hc₂, hc₃, hc₄, hc₅]
  simp

end Function

/-! ## Templates -/

namespace TemplateBuilder

/-- What an item is in a template: in braces it cannot be a group. -/
def Spelt : (fuzz : Bool) → List Lexeme → Prop
  | true, ts => ∃ f : Source.Field, f.Written ts
  | false, ts => ∃ e : Entry, e.Written ts

theorem Spelt.of_field {ts : List Lexeme} {f : Source.Field} (hf : f.Written ts) :
    ∀ fuzz, Spelt fuzz ts
  | true => ⟨f, hf⟩
  | false => ⟨.field f, .field hf⟩

/-- Pieces that spell something each, together with what they spell. -/
theorem exists_spelt {α : Type} {P : α → List Lexeme → Prop} {pieces : List (List Lexeme)}
    (h : ∀ ts ∈ pieces, ∃ a, P a ts) :
    ∃ as : List (List Lexeme × α), as.map (·.1) = pieces ∧ ∀ a ∈ as, P a.2 a.1 := by
  induction pieces with
  | nil => exact ⟨[], rfl, by simp⟩
  | cons ts pieces ih =>
    obtain ⟨⟨a, ha⟩, h⟩ := List.forall_mem_cons.1 h
    obtain ⟨as, hmap, has⟩ := ih h
    exact ⟨(ts, a) :: as, by rw [List.map_cons, hmap], List.forall_mem_cons.2 ⟨ha, has⟩⟩

/-- An optional argument is not there, or stands between parentheses. -/
theorem gives_parseOptional {α : Type} {start : Cursor} (fin : Position) (c : Cursor)
    (h : c.rest.length < start.rest.length) (default : α)
    (argument : (c : Cursor) → ParseResult α c) {P : List Lexeme → Prop}
    (ha : ∀ c, (argument c).Gives fun _ after => c.Spells after P) :
    (parseOptional fin c h default argument).Gives fun _ after =>
      c.lexemes = after.lexemes ∨
        ∃ ts, P ts ∧
          c.lexemes = .mark .openParen :: ts ++ .mark .closeParen :: after.lexemes := by
  rw [parseOptional]
  split
  · exact .inl rfl
  next after s ho =>
  have hc := lexemes_of_pass? ho
  refine (((ha after).behind s).behind h).bind ?_
  rintro v after₂ s₂ ⟨ts, hts, hP⟩
  refine ((gives_expect fin .closeParen after₂).behind _).bind ?_
  intro t after₃ s₃ hc₃
  refine .inr ⟨ts, hP, ?_⟩
  rw [hc, hts, hc₃]
  simp

theorem gives_parseScalar {start : Cursor} (fin : Position) (b : TemplateBuilder) {k : Keyword}
    {w : Width} (hk : k.scalarWidth? = some w) (fuzz : Bool) (c : Cursor)
    (h : c.rest.length < start.rest.length) :
    (parseScalar fin b w fuzz c h).Gives fun _ after =>
      c.Spells after fun us => ∃ f, Source.Field.Written (.keyword k :: us) f := by
  refine (gives_parseOptional (P := fun ts => ∃ v, ts = [.integer v]) fin c h 0 _ ?_).bind ?_
  · intro c
    refine (gives_integer fin c).bind ?_
    intro r after s hc
    dsimp only
    split
    · exact ⟨[.integer r.1], hc, r.1, rfl⟩
    · trivial
  · rintro v after s (hc | ⟨_, ⟨n, rfl⟩, hc⟩)
    · exact ⟨[], hc, _, .scalar hk⟩
    · exact ⟨[.mark .openParen, .integer n, .mark .closeParen], hc, _, .value hk n⟩

theorem gives_parseString {start : Cursor} (fin : Position) (b : TemplateBuilder)
    (form : StringForm) (fuzz : Bool) (c : Cursor) (h : c.rest.length < start.rest.length) :
    (parseString fin b form fuzz c h).Gives fun _ after =>
      c.Spells after fun us => ∃ f, Source.Field.Written (.keyword form.keyword :: us) f := by
  refine (gives_parseOptional (P := fun ts => ∃ s, ts = [.string s]) fin c h none _ ?_).bind ?_
  · intro c
    refine (gives_take fin _ c).bind ?_
    intro t after s hc
    split
    · next text ht =>
      rw [ht] at hc
      exact .cons hc (.nil ⟨text, rfl⟩)
    · trivial
  · rintro v after s (hc | ⟨_, ⟨text, rfl⟩, hc⟩)
    · exact ⟨[], hc, _, .string form⟩
    · exact ⟨[.mark .openParen, .string text, .mark .closeParen], hc, _, .seed form text⟩

theorem gives_parseElement (fin : Position) (c : Cursor) :
    (parseElement fin c).Gives fun w after =>
      ∃ k, Keyword.scalarWidth? k = some w ∧ c.lexemes = .keyword k :: after.lexemes := by
  refine (gives_take fin _ c).bind ?_
  intro t after s hc
  split
  · next k hk =>
    rw [hk] at hc
    split
    · next w hw => exact ⟨k, hw, hc⟩
    · trivial
  · trivial

theorem gives_parseBounds {start : Cursor} (fin : Position) (fuzz : Bool) (c : Cursor)
    (h : c.rest.length ≤ start.rest.length) :
    (parseBounds fin fuzz c h).Gives fun _ after =>
      (∃ n, c.lexemes = .integer n :: after.lexemes) ∨
        ∃ n m, c.lexemes = .integer n :: .mark .minus :: .integer m :: after.lexemes := by
  refine ((gives_integer fin c).weaken h).bind ?_
  intro r after s hc
  obtain ⟨n, pos⟩ := r
  dsimp only
  split
  · exact .inl ⟨n, hc⟩
  next after₂ s₂ hm =>
  have hc₂ := lexemes_of_pass? hm
  refine (((gives_integer fin after₂).behind s₂).behind s).bind ?_
  intro r after₃ s₃ hc₃
  split
  · refine .inr ⟨n, r.1, ?_⟩
    rw [hc, hc₂, hc₃]
  · trivial

theorem gives_parseArray {start : Cursor} (fin : Position) (b : TemplateBuilder) (fuzz : Bool)
    (pos : Position) (c : Cursor) (h : c.rest.length < start.rest.length) :
    (parseArray fin b fuzz pos c h).Gives fun _ after =>
      c.Spells after fun us => ∃ f, Source.Field.Written (.keyword .array :: us) f := by
  refine ((gives_expect fin .less c).behind _).bind ?_
  intro t after₁ s₁ hc₁
  refine ((gives_parseElement fin after₁).behind _).bind ?_
  rintro w after₂ s₂ ⟨k, hk, hc₂⟩
  refine ((gives_expect fin .greater after₂).behind _).bind ?_
  intro t after₃ s₃ hc₃
  refine ((gives_expect fin .openParen after₃).behind _).bind ?_
  intro t after₄ s₄ hc₄
  refine (gives_parseBounds fin fuzz after₄ (by omega)).bind ?_
  intro r after₅ s₅ hc₅
  refine ((gives_expect fin .closeParen after₅).behind _).bind ?_
  intro t after₆ s₆ hc₆
  -- what is checked now says nothing about the lexemes
  have hw : c.Spells after₆ fun us => ∃ f, Source.Field.Written (.keyword .array :: us) f := by
    refine .cons hc₁ (.cons hc₂ (.cons hc₃ (.cons hc₄ ?_)))
    rcases hc₅ with ⟨n, hc₅⟩ | ⟨n, m, hc₅⟩
    · exact .cons hc₅ (.cons hc₆ (.nil ⟨_, .array hk n⟩))
    · have hall : after₄.lexemes = [.integer n, .mark .minus, .integer m] ++ after₅.lexemes := hc₅
      exact .append hall (.cons hc₆ (.nil ⟨_, .range hk n m⟩))
  dsimp only
  split
  · trivial
  split
  · exact hw
  split
  · exact hw
  · trivial

theorem gives_pushReference {start : Cursor} (templates : List (String × Template))
    (b : TemplateBuilder) (x : String) (pos : Position) (c : Cursor)
    (h : c.rest.length < start.rest.length) :
    (pushReference templates b x pos c h).Gives fun _ after => after = c := by
  rw [pushReference]
  split
  · rfl
  · trivial

mutual

theorem gives_parseItem (k : Known) (b : TemplateBuilder) (fuzz : Bool) (c : Cursor) :
    (parseItem k b fuzz c).Gives fun _ after => c.Spells after (Spelt fuzz) := by
  rw [parseItem]
  split
  · trivial
  next t after s ht =>
  have hc := (gives_take k.fin .templateItem c).of_parsed ht
  -- an item that begins with a keyword
  have keyword {kw : Keyword} (hkw : t.lexeme = .keyword kw) {after' : Cursor}
      (h : after.Spells after' fun us => ∃ f, Source.Field.Written (.keyword kw :: us) f) :
      c.Spells after' (Spelt fuzz) := by
    rw [hkw] at hc
    refine .cons hc (h.imp ?_)
    rintro us ⟨f, hf⟩
    exact .of_field hf fuzz
  split
  · next hk => exact (gives_parseString k.fin b .terminated fuzz after s).imp fun _ _ => keyword hk
  · next hk => exact (gives_parseString k.fin b .line fuzz after s).imp fun _ _ => keyword hk
  · next hk => exact (gives_parseArray k.fin b fuzz t.pos after s).imp fun _ _ => keyword hk
  · trivial
  · next kw _ _ _ _ hk =>
    split
    · next w hw => exact (gives_parseScalar k.fin b hw fuzz after s).imp fun _ _ => keyword hk
    · trivial
  -- braces, which are refused within braces
  · next ho =>
    rw [ho] at hc
    split
    · trivial
    next hfuzz =>
    refine (gives_parseItems k b true after c (by omega)).bind ?_
    rintro b' after₂ s₂ ⟨pieces, hne, hp, hc₂⟩
    refine ((gives_expect k.fin .closeBrace after₂).behind _).bind ?_
    intro t after₃ s₃ hc₃
    obtain ⟨fields, rfl, hf⟩ := exists_spelt hp
    rw [Bool.not_eq_true] at hfuzz
    subst hfuzz
    have hgroup : fields ≠ [] := by
      rintro rfl
      exact hne rfl
    have hall : after.lexemes =
        commas (fields.map (·.1)) ++ [.mark .closeBrace] ++ after₃.lexemes := by
      rw [hc₂, hc₃]
      simp
    exact .cons hc (.append hall (.nil ⟨_, by simpa using Entry.Written.group hgroup hf⟩))
  · next hd =>
    rw [hd] at hc
    refine ((gives_ident k.fin after).behind _).bind ?_
    intro r after₂ s₂ hc₂
    refine (gives_pushReference k.tree.templates b r.1 r.2 after₂ s₂).imp ?_
    rintro - _ rfl
    exact .cons hc (.cons hc₂ (.nil (.of_field (.reference (.dollar r.1)) fuzz)))
  · next x hx =>
    rw [hx] at hc
    refine (gives_pushReference k.tree.templates b x t.pos after s).imp ?_
    rintro - _ rfl
    exact .cons hc (.nil (.of_field (.reference (.plain x)) fuzz))
  · trivial
termination_by (c.rest.length, 0)

theorem gives_parseItems (k : Known) (b : TemplateBuilder) (fuzz : Bool) (c start : Cursor)
    (h : c.rest.length ≤ start.rest.length) :
    (parseItems k b fuzz c start h).Gives fun _ after =>
      ∃ pieces : List (List Lexeme), pieces ≠ [] ∧ (∀ ts ∈ pieces, Spelt fuzz ts) ∧
        c.lexemes = commas pieces ++ after.lexemes := by
  rw [parseItems]
  split
  · trivial
  next b' after s hi =>
  obtain ⟨ts, hts, hsp⟩ := (gives_parseItem k b fuzz c).of_parsed hi
  split
  · next after₂ s₂ hcomma =>
    have hc₂ := lexemes_of_pass? hcomma
    refine (gives_parseItems k b' fuzz after₂ start (by omega)).imp ?_
    rintro - after' ⟨pieces, hne, hp, hc₃⟩
    obtain _ | ⟨us, pieces⟩ := pieces
    · exact absurd rfl hne
    refine ⟨ts :: us :: pieces, by simp, List.forall_mem_cons.2 ⟨hsp, hp⟩, ?_⟩
    rw [hts, hc₂, hc₃]
    simp
  · exact ⟨[ts], by simp, by simpa using hsp, hts⟩
termination_by (c.rest.length, 1)

end

theorem gives_parse (k : Known) (c : Cursor) :
    (parse k c).Gives fun _ after =>
      ∃ ts, Lexeme.keyword .template :: c.lexemes = ts ++ after.lexemes ∧
        ∃ d : Declaration, d.Written ts := by
  refine (gives_ident k.fin c).bind ?_
  intro r after s hc
  obtain ⟨name, pos⟩ := r
  dsimp only
  split
  · trivial
  refine ((gives_expect k.fin .assign after).behind _).bind ?_
  intro t after₂ s₂ hc₂
  refine ((gives_expect k.fin .openBracket after₂).behind _).bind ?_
  intro t after₃ s₃ hc₃
  refine (gives_parseItems k { pool := k.tree.pool } false after₃ c (by omega)).bind ?_
  rintro b after₄ s₄ ⟨pieces, hne, hp, hc₄⟩
  refine ((gives_expect k.fin .closeBracket after₄).behind _).bind ?_
  intro t after₅ s₅ hc₅
  refine ((gives_expect k.fin .semicolon after₅).behind _).bind ?_
  intro t after₆ s₆ hc₆
  obtain ⟨entries, rfl, he⟩ := exists_spelt hp
  refine ⟨_, ?_, _, @Declaration.Written.template name entries ?_ he⟩
  · rw [hc, hc₂, hc₃, hc₄, hc₅, hc₆]
    simp
  · rintro rfl
    exact hne rfl

end TemplateBuilder

/-! ## Scripts -/

namespace ScriptTree

theorem written_of_parseFrom (fin : Position) {final : ScriptTree} :
    ∀ (tree : ScriptTree) (tokens : List Token), parseFrom fin tree tokens = .ok final →
      ∃ p, Program.Written (tokens.map Token.lexeme) p
  | _, [], _ => ⟨[], .nil⟩
  | tree, t :: rest, h => by
    rw [List.map_cons]
    unfold parseFrom at h
    dsimp only at h
    split at h
    · next ht =>
      split at h
      · cases h
      next x b after s hp =>
      obtain ⟨ts, hts, d, hd⟩ := (TemplateBuilder.gives_parse _ _).of_parsed hp
      obtain ⟨p, hp⟩ := written_of_parseFrom fin _ after.rest h
      refine ⟨d :: p, ?_⟩
      rw [ht]
      show Program.Written (.keyword .template :: ({ rest } : Cursor).lexemes) _
      rw [hts]
      exact .cons hd hp
    · next ht =>
      split at h
      · cases h
      next f after s hf =>
      obtain ⟨ts, hts, f', hf'⟩ := (Function.gives_parse _ _).of_parsed hf
      obtain ⟨p, hp⟩ := written_of_parseFrom fin _ after.rest h
      refine ⟨.function f' :: p, ?_⟩
      rw [ht]
      show Program.Written (.keyword .function :: ({ rest } : Cursor).lexemes) _
      rw [hts]
      exact .cons (.function hf') hp
    · cases h
termination_by _ tokens => tokens.length
decreasing_by all_goals exact Nat.lt_succ_of_lt ‹_›

/-- A source text that is read has a derivation. -/
theorem written_of_parse {source : String} {tree : ScriptTree} (h : parse source = .ok tree) :
    ∃ p, Program.Written (lexemes source) p :=
  written_of_parseFrom _ {} _ h

end ScriptTree

end ScriptFuzz
