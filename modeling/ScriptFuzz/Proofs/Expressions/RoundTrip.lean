import ScriptFuzz.Proofs.Expressions.Reading

/-!
# Reading undoes printing

A printed expression is a text made of the lexemes that spell it (`Expr.Written`), with gaps between
them (`Printed`). Such a text is read as the expression, up to its tags, and nothing of it is left;
conversely an expression that is read is well-formed, and the lexemes that were taken are those of a
printed text of it. The same holds for lists of statements, which take all lexemes of a text
(`parse_undoes_printing`).
-/

namespace ScriptFuzz

open Source

/-- The cursor in front of all tokens of a source text, when `n` is the number of the next
expression. -/
def Cursor.ofSource (source : String) (n : Nat) : Cursor :=
  { rest := (TokenStream.ofSource source).tokens, nextId := n }

theorem Cursor.lexemes_ofSource (source : String) (n : Nat) :
    (Cursor.ofSource source n).lexemes = Source.lexemes source := rfl

theorem Cursor.lexemes_ofSource_of_printed {source : String} {ls : List Lexeme}
    (h : Printed source.toList ls) (n : Nat) : (Cursor.ofSource source n).lexemes = ls :=
  lexemes_of_printed h

theorem Cursor.hasNames_ofSource (source : String) (n : Nat) :
    Expr.HasNames (Cursor.ofSource source n) := fun _ => isName_of_mem_source

/-! ## What is written can be printed -/

/-- Whether a lexeme can stand in an expression or a statement. -/
def Lexeme.inExpr : Lexeme → Bool
  | mark _ | keyword _ | integer _ | ident _ => true
  | real _ | string _ | malformed _ => false

theorem Expr.ValueWritten.all_inExpr {t : WireType} {ts : List Lexeme} {value : Int}
    (hw : Expr.ValueWritten t ts value) : ts.all Lexeme.inExpr := by
  cases hw <;> rfl

theorem Expr.Written.all_inExpr {ts : List Lexeme} {e : Expr} (hw : e.Written ts) :
    ts.all Lexeme.inExpr := by
  induction hw with
  | constant _ hv => simpa [Lexeme.inExpr] using hv.all_inExpr
  | sequence _ _ ih | fuzz _ _ ih =>
    have hcommas := all_commas (P := Lexeme.inExpr) rfl (List.forall_mem_map.2 ih)
    simpa [Lexeme.inExpr] using hcommas
  | _ => rfl

theorem ExprStatement.Written.all_inExpr {ts : List Lexeme} {s : ExprStatement}
    (hw : s.Written ts) : ts.all Lexeme.inExpr := by
  cases hw with
  | declaration _ hv => simpa [Lexeme.inExpr] using hv.all_inExpr
  | output hv =>
    rw [List.all_append, List.all_flatMap, Bool.and_eq_true]
    refine ⟨List.all_eq_true.2 ?_, rfl⟩
    intro v hmem
    exact (hv v hmem).all_inExpr
  | input hl =>
    rw [List.all_append, hl.all_inExpr]
    rfl

theorem ExprStatement.AllWritten.all_inExpr {ts : List Lexeme} {ss : List ExprStatement}
    (hw : AllWritten ts ss) : ts.all Lexeme.inExpr := by
  induction hw with
  | nil => rfl
  | cons hs _ ih => rw [List.all_append, hs.all_inExpr, ih]; rfl

/-- Lexemes of a source text can be printed if they can stand in an expression. -/
theorem exists_printed_of_subset {source : String} {ts : List Lexeme}
    (hsub : ts ⊆ Source.lexemes source) (hin : ts.all Lexeme.inExpr) :
    ∃ text, Printed text ts := by
  refine exists_printed ?_
  intro l hl
  have hl' := List.all_eq_true.1 hin l hl
  cases l with
  | mark m => exact ⟨_, _, .mark m⟩
  | keyword k => exact ⟨_, _, .keyword k⟩
  | integer v => exact ⟨_, _, .decimal v⟩
  | ident x => exact ⟨_, _, .ident (isName_of_mem_source (hsub hl))⟩
  | _ => cases hl'

/-! ## Expressions and statements -/

theorem Expr.parse_of_printed {e : Expr} {ts rest : List Lexeme} {source : String}
    (he : e.WellFormed false) (hw : e.Written ts) (hends : Expr.Ends rest)
    (hp : Printed source.toList (ts ++ rest)) (fin : Position) (n : Nat) :
    ∃ e' after shorter,
      Expr.parse fin (Cursor.ofSource source n) = .parsed e' after shorter ∧
        e'.bare = e.bare ∧ after.lexemes = rest :=
  (Expr.meets_parse fin hw he rfl hends (Cursor.lexemes_ofSource_of_printed hp n)).exists_parsed

theorem Expr.printed_of_parse {e : Expr} {source : String} {fin : Position} {n : Nat}
    {after : Cursor} {shorter : after.rest.length < (Cursor.ofSource source n).rest.length}
    (h : Expr.parse fin (Cursor.ofSource source n) = .parsed e after shorter) :
    e.WellFormed false ∧ ∃ ts text,
      Source.lexemes source = ts ++ after.lexemes ∧ e.Written ts ∧ Printed text ts := by
  obtain ⟨he, ts, hts, hw⟩ :=
    (Expr.gives_parse fin _ (Cursor.hasNames_ofSource source n)).of_parsed h
  rw [Cursor.lexemes_ofSource] at hts
  have hsub : ts ⊆ Source.lexemes source := by
    rw [hts]
    exact List.subset_append_left _ _
  obtain ⟨text, htext⟩ := exists_printed_of_subset hsub hw.all_inExpr
  exact ⟨he, ts, text, hts, hw, htext⟩

theorem ExprStatement.printed_of_parseAll {ss : List ExprStatement} {source : String}
    {fin : Position} {n : Nat} {after : Cursor}
    (h : ExprStatement.parseAll fin [] (Cursor.ofSource source n) = (.ok ss, after)) :
    (∀ s ∈ ss, s.WellFormed) ∧ AllWritten (Source.lexemes source) ss ∧
      ∃ text, Printed text (Source.lexemes source) := by
  obtain ⟨ss', hss, hwf, hw⟩ := written_of_parseAll rfl (Cursor.hasNames_ofSource source n) h
  rw [List.reverse_nil, List.nil_append] at hss
  rw [Cursor.lexemes_ofSource] at hw
  subst hss
  exact ⟨hwf, hw, exists_printed_of_subset (List.Subset.refl _) hw.all_inExpr⟩

/-- Reading undoes printing. A printed text of a well-formed expression is read as the expression,
up to its tags, and exactly its lexemes are taken; an expression that is read from any text is
well-formed, and the lexemes taken are those of a printed text of it. In the same way a printed text
of well-formed statements is read as these statements, and statements that are read from a text are
well-formed and spelled by all its lexemes. -/
theorem parse_undoes_printing (source : String) (fin : Position) (n : Nat) :
    (∀ (e : Expr) (ts rest : List Lexeme),
        e.WellFormed false → e.Written ts → Expr.Ends rest →
          Printed source.toList (ts ++ rest) →
        ∃ e' after shorter,
          Expr.parse fin (Cursor.ofSource source n) = .parsed e' after shorter ∧
            e'.bare = e.bare ∧ after.lexemes = rest) ∧
      (∀ (e : Expr) (after : Cursor) (shorter : _),
        Expr.parse fin (Cursor.ofSource source n) = .parsed e after shorter →
        e.WellFormed false ∧ ∃ ts text,
          Source.lexemes source = ts ++ after.lexemes ∧ e.Written ts ∧ Printed text ts) ∧
      (∀ (ss : List ExprStatement) (ts : List Lexeme),
        (∀ s ∈ ss, s.WellFormed) → ExprStatement.AllWritten ts ss → Printed source.toList ts →
        ∃ ss' after,
          ExprStatement.parseAll fin [] (Cursor.ofSource source n) = (.ok ss', after) ∧
            ss'.map ExprStatement.bare = ss.map ExprStatement.bare ∧ after.rest = []) ∧
      ∀ (ss : List ExprStatement) (after : Cursor),
        ExprStatement.parseAll fin [] (Cursor.ofSource source n) = (.ok ss, after) →
        (∀ s ∈ ss, s.WellFormed) ∧ ExprStatement.AllWritten (Source.lexemes source) ss ∧
          ∃ text, Printed text (Source.lexemes source) := by
  refine ⟨?_, ?_, ?_, ?_⟩
  · intro e ts rest he hw hends hp
    exact Expr.parse_of_printed he hw hends hp fin n
  · intro e after shorter h
    exact Expr.printed_of_parse h
  · intro ss ts hwf hw hp
    exact ExprStatement.parseAll_of_written fin hw hwf [] rfl
      (Cursor.lexemes_ofSource_of_printed hp n)
  · intro ss after h
    exact ExprStatement.printed_of_parseAll h

/-- A vector of two bytes, with a blank and a comment behind it. -/
theorem parse_two_bytes :
    ∃ e after shorter,
      Expr.parse {} (Cursor.ofSource "u8<2> //" 0) = .parsed e after shorter ∧
        e.bare = .vector default ⟨.one, false⟩ 2 2 ∧ after.lexemes = [] ∧ e.WellFormed false := by
  have hprinted : Printed "u8<2> //".toList
      [.keyword (.wire ⟨.one, false⟩), .mark .less, .integer 2, .mark .greater] :=
    Eq.mp (congrArg (Printed · _) (by decide)) <|
      Printed.cons .nil (.keyword (.wire ⟨.one, false⟩)) (by rintro c ⟨⟩; rfl) <|
        .cons .nil (.mark .less) (by rintro c ⟨⟩; rfl) <|
          .cons .nil (.decimal 2) (by rintro c ⟨⟩; rfl) <|
            .cons .nil (.mark .greater) (by rintro c ⟨⟩; rfl) <|
              .comment (.blank (by decide : Text.isBlank ' ') .nil) (List.not_mem_nil)
  obtain ⟨hparse, hgiven, -⟩ := parse_undoes_printing "u8<2> //" {} 0
  obtain ⟨e, after, shorter, he, hbare, hafter⟩ := hparse _ _ []
    (.vector default ⟨.one, false⟩ (UInt64.le_refl 2)) (.vector default _ 2) Expr.ends_nil hprinted
  exact ⟨e, after, shorter, he, hbare, hafter, (hgiven e after shorter he).1⟩

end ScriptFuzz
