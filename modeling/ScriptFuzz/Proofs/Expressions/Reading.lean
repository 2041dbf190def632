import ScriptFuzz.Proofs.Expressions.Depth
import ScriptFuzz.Proofs.Expressions.Grammar

/-!
# Reading template expressions

- `Expr.meets_parse`: the lexemes that spell a well-formed expression are read as this expression,
  up to its tags.
- `Expr.gives_parse`: what is read is well-formed, and the lexemes that were taken spell it.

The first follows how the expression is written, the second the recursion of the readers.
-/

namespace ScriptFuzz

open Source Cursor ParseResult

/-- Zero is a value of every type. -/
theorem WireType.holds_zero (t : WireType) : t.Holds 0 := by
  obtain ⟨w, signed⟩ := t
  cases w <;> cases signed <;> decide

namespace Expr

variable {c start : Cursor} {ts rs : List Lexeme} {t : WireType} {inFuzz : Bool}

/-! ## What is written is read -/

/-- A constant is read between its parentheses, if it is a value of the type. -/
theorem meets_constantValue (fin : Position) {value : Int} (hw : ValueWritten t ts value)
    (hv : t.Holds value) (hc : c.lexemes = ts ++ rs) :
    (constantValue fin t c).Meets True fun v after => v = value ∧ after.lexemes = rs := by
  cases hw with
  | plain v =>
    refine (meets_take fin _ hc).bind_true ?_
    rintro tok after s ⟨hl, ha⟩
    rw [hl]
    dsimp only
    rw [if_pos hv.2]
    exact ⟨trivial, rfl, ha⟩
  | minus ht v =>
    refine (meets_take fin _ hc).bind_true ?_
    rintro tok after s ⟨hl, ha⟩
    rw [hl]
    refine ((meets_integer fin ha).behind s).bind_true ?_
    rintro ⟨v, pos⟩ after₂ s₂ ⟨rfl, ha₂⟩
    dsimp only
    rw [if_pos ⟨ht, hv.1⟩]
    exact ⟨trivial, rfl, ha₂⟩

theorem meets_complete (make : Tag → Expr) {e : Expr}
    (h : c.rest.length < start.rest.length) (he : ∀ tag, (make tag).bare = e.bare) :
    (c.complete make h : ParseResult Expr start).Meets True
      fun e' after => e'.bare = e.bare ∧ after.lexemes = c.lexemes :=
  ⟨trivial, he _, rfl⟩

/-- Behind its type, a constant is read. -/
theorem meets_typed_constant (fin : Position) {tag : Tag} {value : Int}
    (hw : ValueWritten t ts value) (hv : t.Holds value) (h : c.rest.length < start.rest.length)
    (hc : c.lexemes = .mark .openParen :: (ts ++ .mark .closeParen :: rs)) :
    (typed fin t c h : ParseResult Expr start).Meets True
      fun e after => e.bare = (Expr.constant tag t value).bare ∧ after.lexemes = rs := by
  obtain ⟨after, s, hp, ha⟩ := pass?_eq_some hc
  rw [typed]
  simp only [hp]
  refine (((meets_constantValue fin hw hv ha).behind s).behind h).bind_true ?_
  rintro _ after₂ s₂ ⟨rfl, ha₂⟩
  refine ((meets_expect fin ha₂).behind s₂).bind_true ?_
  rintro _ after₃ s₃ rfl
  exact meets_complete _ _ fun _ => rfl

/-- One bound stands for both. -/
theorem meets_vectorBounds_one (fin : Position) {n : UInt64}
    (hc : c.lexemes = .integer n :: .mark .greater :: rs) :
    (vectorBounds fin c).Meets True
      fun r after => (r.1, r.2.1) = (n, n) ∧ after.lexemes = .mark .greater :: rs := by
  refine (meets_integer fin hc).bind_true ?_
  rintro ⟨v, pos⟩ after s ⟨rfl, ha⟩
  rw [pass?_eq_none (by rw [ha]; simp)]
  exact ⟨trivial, rfl, ha⟩

theorem meets_vectorBounds_two (fin : Position) {n m : UInt64}
    (hc : c.lexemes = .integer n :: .mark .minus :: .integer m :: rs) :
    (vectorBounds fin c).Meets True
      fun r after => (r.1, r.2.1) = (n, m) ∧ after.lexemes = rs := by
  refine (meets_integer fin hc).bind_true ?_
  rintro ⟨v, pos⟩ after s ⟨rfl, ha⟩
  obtain ⟨after₂, s₂, hp, ha₂⟩ := pass?_eq_some ha
  simp only [hp]
  refine (((meets_integer fin ha₂).behind s₂).behind s).bind_true ?_
  rintro ⟨v', pos'⟩ after₃ s₃ ⟨rfl, ha₃⟩
  exact ⟨trivial, rfl, ha₃⟩

/-- Behind its type, a vector is read, if its bounds are in order. -/
theorem meets_typed_vector (fin : Position) {tag : Tag} {n m : UInt64}
    (bounds : List Lexeme)
    (hb : ∀ c : Cursor, c.lexemes = bounds ++ .mark .greater :: rs →
      (vectorBounds fin c).Meets True
        fun r after => (r.1, r.2.1) = (n, m) ∧ after.lexemes = .mark .greater :: rs)
    (hle : n ≤ m) (hends : Ends rs) (h : c.rest.length < start.rest.length)
    (hc : c.lexemes = .mark .less :: (bounds ++ .mark .greater :: rs)) :
    (typed fin t c h : ParseResult Expr start).Meets True
      fun e after => e.bare = (Expr.vector tag t n m).bare ∧ after.lexemes = rs := by
  obtain ⟨after, s, hp, ha⟩ := pass?_eq_some hc
  rw [typed, pass?_eq_none (by rw [hc]; simp)]
  simp only [hp]
  refine (((hb after ha).behind s).behind h).bind_true ?_
  rintro ⟨v, w, pos⟩ after₂ s₂ ⟨hvw, ha₂⟩
  obtain ⟨rfl, rfl⟩ := Prod.mk.inj hvw
  refine ((meets_expect fin ha₂).behind s₂).bind_true ?_
  rintro _ after₃ s₃ rfl
  dsimp only
  rw [if_neg (UInt64.not_lt.2 hle)]
  split
  · next pos hhead =>
    refine absurd ?_ (hends .openParen (by simp))
    rw [Cursor.lexemes, List.head?_map, hhead]
    rfl
  · exact meets_complete _ _ fun _ => rfl

/-- Behind a dollar sign, a reference is read. -/
theorem meets_named_reference (fin : Position) {tag : Tag} {name : String}
    (hends : Ends rs) (h : c.rest.length < start.rest.length)
    (hc : c.lexemes = .ident name :: rs) :
    (named fin c h : ParseResult Expr start).Meets True
      fun e after => e.bare = (Expr.reference tag name).bare ∧ after.lexemes = rs := by
  refine ((meets_ident fin hc).behind h).bind_true ?_
  rintro ⟨x, pos⟩ after s ⟨rfl, rfl⟩
  rw [pass?_eq_none (hends .dot (by simp))]
  exact meets_complete _ _ fun _ => rfl

theorem meets_named_property (fin : Position) {tag : Tag} {name part : String}
    (h : c.rest.length < start.rest.length)
    (hc : c.lexemes = .ident name :: .mark .dot :: .ident part :: rs) :
    (named fin c h : ParseResult Expr start).Meets True
      fun e after => e.bare = (Expr.property tag name part).bare ∧ after.lexemes = rs := by
  refine ((meets_ident fin hc).behind h).bind_true ?_
  rintro ⟨x, pos⟩ after s ⟨rfl, ha⟩
  obtain ⟨after₂, s₂, hp, ha₂⟩ := pass?_eq_some ha
  simp only [hp]
  refine (((meets_ident fin ha₂).behind s₂).behind s).bind_true ?_
  rintro ⟨y, pos'⟩ after₃ s₃ ⟨rfl, rfl⟩
  exact meets_complete _ _ fun _ => rfl

/-- Items with commas between them are read one after the other, if each of them is read by itself.
-/
theorem meets_parseItems (fin : Position) (close : Mark)
    (hclose : close ∉ [Mark.openParen, .less, .dot, .comma])
    {items : List (List Lexeme × Expr)} (hne : items ≠ [])
    (hread : ∀ i ∈ items, ∀ (c : Cursor) (rs : List Lexeme), c.inFuzz = inFuzz → Ends rs →
      c.lexemes = i.1 ++ rs →
      (parse fin c).Meets True fun e after => e.bare = i.2.bare ∧ after.lexemes = rs)
    (read : List Expr) (h : c.rest.length ≤ start.rest.length) (hf : c.inFuzz = inFuzz)
    (hc : c.lexemes = commas (items.map (·.1)) ++ .mark close :: rs) :
    (parseItems fin close read c start h).Meets True fun es after =>
      es.map bare = (read.reverse ++ items.map (·.2)).map bare ∧ after.lexemes = rs := by
  induction items generalizing c read with
  | nil => exact absurd rfl hne
  | cons i items ih =>
    obtain ⟨hi, hread⟩ := List.forall_mem_cons.1 hread
    rw [parseItems]
    cases items with
    | nil =>
      have hends : Ends (.mark close :: rs) := ends_mark (fun h => hclose (by simp_all)) rs
      obtain ⟨e, after, s, hp, he, ha⟩ := (hi c _ hf hends hc).exists_parsed
      rw [hp]
      dsimp only
      rw [pass?_eq_none (by rw [ha]; simp_all)]
      refine ((meets_expect fin ha).weaken _).bind_true ?_
      rintro _ after₂ s₂ rfl
      exact ⟨trivial, by simp [he], rfl⟩
    | cons j items =>
      rw [List.map_cons, List.map_cons, commas_cons, List.append_assoc] at hc
      have hends : Ends (.mark .comma :: (commas (j.1 :: items.map (·.1)) ++ .mark close :: rs)) :=
        ends_mark (by decide) _
      obtain ⟨e, after, s, hp, he, ha⟩ := (hi c _ hf hends hc).exists_parsed
      rw [hp]
      dsimp only
      obtain ⟨after₂, s₂, hpass, ha₂⟩ := pass?_eq_some ha
      simp only [hpass]
      have hf₂ : after₂.inFuzz = inFuzz := by
        rw [inFuzz_of_pass? hpass, inFuzz_congr ((keeps_parse fin c).of_parsed hp), hf]
      refine (ih (by simp) hread (e :: read) (by omega) hf₂ ha₂).imp .rfl ?_
      rintro - es after₃ ⟨hes, ha₃⟩
      exact ⟨by simpa [he] using hes, ha₃⟩

/-- What follows a type is read by `typed`. -/
theorem parse_eq_typed (fin : Position) (hc : c.lexemes = .keyword (.wire t) :: rs) :
    ∃ after h, parse fin c = typed fin t after h ∧ after.lexemes = rs := by
  obtain ⟨tok, after, s, ht, hl, ha⟩ := take_of_lexemes fin hc
  refine ⟨after, s, ?_, ha⟩
  rw [parse, ht]
  simp only [hl]

/-- What follows a dollar sign is read by `named`. -/
theorem parse_eq_named (fin : Position) (hc : c.lexemes = .mark .dollar :: rs) :
    ∃ after h, parse fin c = named fin after h ∧ after.lexemes = rs := by
  obtain ⟨tok, after, s, ht, hl, ha⟩ := take_of_lexemes fin hc
  refine ⟨after, s, ?_, ha⟩
  rw [parse, ht]
  simp only [hl]

/-- The lexemes of a well-formed expression are read as this expression, up to its tags. -/
theorem meets_parse (fin : Position) {e : Expr} (hw : e.Written ts) (he : e.WellFormed inFuzz)
    (hf : c.inFuzz = inFuzz) (hends : Ends rs) (hc : c.lexemes = ts ++ rs) :
    (parse fin c).Meets True fun e' after => e'.bare = e.bare ∧ after.lexemes = rs := by
  induction hw generalizing c rs inFuzz with
  | type tag t =>
    obtain ⟨after, h, hp, rfl⟩ := parse_eq_typed fin hc
    rw [hp, typed, pass?_eq_none (hends .openParen (by simp)),
      pass?_eq_none (hends .less (by simp))]
    exact meets_complete _ _ fun _ => rfl
  | constant tag hv =>
    obtain ⟨after, h, hp, ha⟩ := parse_eq_typed fin hc
    rw [hp]
    cases he with | constant _ hholds =>
    exact meets_typed_constant fin hv hholds h (by simpa using ha)
  | vector tag t n =>
    obtain ⟨after, h, hp, ha⟩ := parse_eq_typed fin hc
    rw [hp]
    exact meets_typed_vector fin [.integer n] (fun _ => meets_vectorBounds_one fin)
      (UInt64.le_refl n) hends h ha
  | range tag t n m =>
    obtain ⟨after, h, hp, ha⟩ := parse_eq_typed fin hc
    rw [hp]
    cases he with | vector _ _ hle =>
    exact meets_typed_vector fin [.integer n, .mark .minus, .integer m]
      (fun _ => meets_vectorBounds_two fin) hle hends h ha
  | reference tag name =>
    obtain ⟨after, h, hp, ha⟩ := parse_eq_named fin hc
    rw [hp]
    exact meets_named_reference fin hends h ha
  | property tag name part =>
    obtain ⟨after, h, hp, ha⟩ := parse_eq_named fin hc
    rw [hp]
    exact meets_named_property fin h ha
  | @sequence tag items hi ih =>
    obtain ⟨tok, after, s, ht, hl, ha⟩ := take_of_lexemes fin hc
    have hf' : after.inFuzz = inFuzz :=
      ((takes_take fin .expression).inFuzz_of_parsed (ht .expression)).trans hf
    rw [parse, ht]
    simp only [hl]
    cases he with | sequence _ hne hwf =>
    have hitems := meets_parseItems fin .closeBracket (by decide) (by simpa using hne)
      (fun i h c rs hf => ih i h (hwf _ (List.mem_map_of_mem h)) hf) [] (Cursor.le_of_lt s) hf'
      (by simpa using ha)
    refine hitems.bind_true ?_
    rintro es after₂ s₂ ⟨hes, rfl⟩
    exact meets_complete _ _ fun _ => by simpa [bare] using hes
  | @fuzz tag items hi ih =>
    obtain ⟨tok, after, s, ht, hl, ha⟩ := take_of_lexemes fin hc
    rw [parse, ht]
    simp only [hl]
    cases he with | fuzz _ hne hwf =>
    rw [(takes_take fin .expression).inFuzz_of_parsed (ht .expression), hf,
      if_neg Bool.false_ne_true]
    have hitems := meets_parseItems (c := after.enterFuzz) fin .closeBrace (by decide)
      (by simpa using hne) (fun i h c rs hf => ih i h (hwf _ (List.mem_map_of_mem h)) hf) []
      (Cursor.le_of_lt s) (inFuzz_enterFuzz after) (by simpa [Cursor.lexemes] using ha)
    refine hitems.leaveFuzz.bind_true ?_
    rintro es _ s₂ ⟨inner, rfl, hes, rfl⟩
    exact meets_complete (c := inner.leaveFuzz) _ _ fun _ => by simpa [bare] using hes

/-! ## What is read is well-formed -/

theorem gives_constantValue (fin : Position) (t : WireType) (c : Cursor) :
    (constantValue fin t c).Gives fun value after =>
      t.Holds value ∧ c.Spells after fun ts => ValueWritten t ts value := by
  refine (gives_take fin _ c).bind ?_
  intro tok after s hc
  cases hl : tok.lexeme with
  | integer v =>
    rw [hl] at hc
    dsimp only
    split
    · next hle =>
      have hleast : t.least ≤ v.toNat := Int.le_trans t.holds_zero.1 (Int.natCast_nonneg _)
      exact ⟨⟨hleast, hle⟩, .cons hc (.nil (.plain v))⟩
    · trivial
  | mark m =>
    rw [hl] at hc
    cases m with
    | minus =>
      dsimp only
      refine ((gives_integer fin after).behind s).bind ?_
      rintro ⟨v, pos⟩ after₂ s₂ hc₂
      dsimp only
      split
      · next hsigned =>
        have hgreatest : -(v.toNat : Int) ≤ t.greatest :=
          Int.le_trans (Int.neg_nonpos_of_nonneg (Int.natCast_nonneg _)) t.holds_zero.2
        exact ⟨⟨hsigned.2, hgreatest⟩, .cons hc (.cons hc₂ (.nil (.minus hsigned.1 v)))⟩
      · trivial
    | _ => trivial
  | _ => trivial

theorem gives_vectorBounds (fin : Position) (c : Cursor) :
    (vectorBounds fin c).Gives fun r after =>
      c.Spells after fun ts =>
        ts = [.integer r.1] ∧ r.2.1 = r.1 ∨ ts = [.integer r.1, .mark .minus, .integer r.2.1] := by
  refine (gives_integer fin c).bind ?_
  rintro ⟨n, pos⟩ after s hc
  dsimp only
  split
  · exact .cons hc (.nil (.inl ⟨rfl, rfl⟩))
  · next after₂ s₂ hp =>
    have hc₂ := lexemes_of_pass? hp
    refine (((gives_integer fin after₂).behind s₂).behind s).bind ?_
    rintro ⟨m, pos'⟩ after₃ s₃ hc₃
    exact .cons hc (.cons hc₂ (.cons hc₃ (.nil (.inr rfl))))

theorem gives_typed (fin : Position) (inFuzz : Bool) (t : WireType)
    (h : c.rest.length < start.rest.length) :
    (typed fin t c h : ParseResult Expr start).Gives fun e after =>
      e.WellFormed inFuzz ∧ c.Spells after fun us => e.Written (.keyword (.wire t) :: us) := by
  unfold typed
  split
  · next after s hp =>
    have hc := lexemes_of_pass? hp
    refine (((gives_constantValue fin t after).behind s).behind h).bind ?_
    rintro value after₂ s₂ ⟨hholds, ts, hts, hw⟩
    refine ((gives_expect fin .closeParen after₂).behind s₂).bind ?_
    intro tok after₃ s₃ hc₃
    refine ⟨.constant _ hholds, .cons hc (.append hts (.cons hc₃ (.nil ?_)))⟩
    simpa using Written.constant _ hw
  · next after s hnone hp =>
    have hc := lexemes_of_pass? hp
    refine (((gives_vectorBounds fin after).behind s).behind h).bind ?_
    rintro ⟨n, m, pos⟩ after₂ s₂ ⟨ts, hts, hbounds⟩
    refine ((gives_expect fin .greater after₂).behind s₂).bind ?_
    intro tok after₃ s₃ hc₃
    dsimp only at hbounds ⊢
    split
    · trivial
    next hlt =>
    have hle := UInt64.not_lt.1 hlt
    split
    · trivial
    refine ⟨.vector _ t hle, .cons hc (.append hts (.cons hc₃ (.nil ?_)))⟩
    rcases hbounds with ⟨rfl, rfl⟩ | rfl
    · exact .vector _ t m
    · exact .range _ t n m
  · exact ⟨.type _ t, .nil (.type _ t)⟩

/-- The identifiers that have not been taken are names. -/
def HasNames (c : Cursor) : Prop := ∀ x, .ident x ∈ c.lexemes → IsName x

theorem HasNames.after {after : Cursor} (h : HasNames c) (hc : c.lexemes = ts ++ after.lexemes) :
    HasNames after := by
  intro x hx
  refine h x ?_
  rw [hc]
  exact List.mem_append_right ts hx

theorem HasNames.tail {after : Cursor} {l : Lexeme} (h : HasNames c)
    (hc : c.lexemes = l :: after.lexemes) : HasNames after :=
  @HasNames.after c [l] after h hc

theorem HasNames.head {x : String} (h : HasNames c) (hc : c.lexemes = .ident x :: rs) :
    IsName x := by
  refine h x ?_
  rw [hc]
  exact List.mem_cons_self

theorem gives_named (fin : Position) (inFuzz : Bool) (hn : HasNames c)
    (h : c.rest.length < start.rest.length) :
    (named fin c h : ParseResult Expr start).Gives fun e after =>
      e.WellFormed inFuzz ∧ c.Spells after fun us => e.Written (.mark .dollar :: us) := by
  refine ((gives_ident fin c).behind h).bind ?_
  rintro ⟨x, pos⟩ after s hc
  dsimp only at hc ⊢
  split
  · exact ⟨.reference _ (hn.head hc), .cons hc (.nil (.reference _ x))⟩
  · next after₂ s₂ hp =>
    have hc₂ := lexemes_of_pass? hp
    refine (((gives_ident fin after₂).behind s₂).behind s).bind ?_
    rintro ⟨y, pos'⟩ after₃ s₃ hc₃
    have hy := ((hn.tail hc).tail hc₂).head hc₃
    exact ⟨.property _ (hn.head hc) hy, .cons hc (.cons hc₂ (.cons hc₃ (.nil (.property _ x y))))⟩

mutual

/-- What is read is well-formed, and the lexemes that were taken spell it. -/
theorem gives_parse (fin : Position) (c : Cursor) (hn : HasNames c) :
    (parse fin c).Gives fun e after => e.WellFormed c.inFuzz ∧ c.Spells after (Written · e) := by
  rw [parse]
  split
  · trivial
  next tok after s ht =>
  have hc := (gives_take fin .expression c).of_parsed ht
  have hf : after.inFuzz = c.inFuzz := (takes_take fin .expression).inFuzz_of_parsed ht
  have hn' := hn.tail hc
  split
  · next t hl =>
    rw [hl] at hc
    refine (gives_typed fin c.inFuzz t s).imp ?_
    rintro e after₂ ⟨hwf, hw⟩
    exact ⟨hwf, .cons hc hw⟩
  · next hl =>
    rw [hl] at hc
    refine (gives_named fin c.inFuzz hn' s).imp ?_
    rintro e after₂ ⟨hwf, hw⟩
    exact ⟨hwf, .cons hc hw⟩
  · next hl =>
    rw [hl] at hc
    refine (gives_parseItems fin .closeBracket [] after c _ hn').bind ?_
    rintro _ after₂ s₂ ⟨items, hne, hwf, hw, rfl, hc₂⟩
    rw [hf] at hwf
    have hwf' := List.forall_mem_map.2 hwf
    refine ⟨.sequence _ (by simpa using hne) hwf', _, ?_, .sequence _ hw⟩
    rw [hc, hc₂]
    simp
    rfl
  · next hl =>
    rw [hl] at hc
    split
    · trivial
    next hfuzz =>
    obtain hfuzz : c.inFuzz = false := by simpa [hf] using hfuzz
    have hitems := gives_parseItems fin .closeBrace [] after.enterFuzz c (Cursor.le_of_lt s) hn'
    refine hitems.leaveFuzz.bind ?_
    rintro _ _ s₂ ⟨inner, rfl, items, hne, hwf, hw, rfl, hc₂⟩
    have hwf' := List.forall_mem_map.2 hwf
    rw [hfuzz]
    refine ⟨.fuzz _ (by simpa using hne) hwf', _, ?_, .fuzz _ hw⟩
    rw [hc]
    refine (congrArg _ hc₂).trans ?_
    simp
    rfl
  · trivial
termination_by (c.rest.length, 0)

theorem gives_parseItems (fin : Position) (close : Mark) (read : List Expr)
    (c start : Cursor) (h : c.rest.length ≤ start.rest.length) (hn : HasNames c) :
    (parseItems fin close read c start h).Gives fun es after =>
      ∃ items : List (List Lexeme × Expr), items ≠ [] ∧
        (∀ i ∈ items, i.2.WellFormed c.inFuzz) ∧ (∀ i ∈ items, i.2.Written i.1) ∧
        es = read.reverse ++ items.map (·.2) ∧
        c.lexemes = commas (items.map (·.1)) ++ .mark close :: after.lexemes := by
  rw [parseItems]
  split
  · trivial
  next e after s he =>
  obtain ⟨hwf, ts, hts, hw⟩ := (gives_parse fin c hn).of_parsed he
  have hf := inFuzz_congr ((keeps_parse fin c).of_parsed he)
  have hn' := hn.after hts
  split
  · next after₂ s₂ hcomma =>
    have hc₂ := lexemes_of_pass? hcomma
    refine (gives_parseItems fin close (e :: read) after₂ start (by omega) (hn'.tail hc₂)).imp ?_
    rintro _ after₃ ⟨items, hne, hwfs, hws, rfl, hc₃⟩
    rw [inFuzz_of_pass? hcomma, hf] at hwfs
    obtain _ | ⟨i, items⟩ := items
    · exact absurd rfl hne
    refine ⟨(ts, e) :: i :: items, by simp, ?_, ?_, ?_, ?_⟩
    · exact List.forall_mem_cons.2 ⟨hwf, hwfs⟩
    · exact List.forall_mem_cons.2 ⟨hw, hws⟩
    · simp
    · rw [hts, hc₂, hc₃]
      simp
  · refine ((gives_expect fin close after).weaken (by omega)).bind ?_
    intro tok after₂ s₂ hc₂
    refine ⟨[(ts, e)], by simp, by simpa using hwf, by simpa using hw, by simp, ?_⟩
    rw [hts, hc₂]
    rfl
termination_by (c.rest.length, 1)

end

end Expr

/-! ## Statements -/

theorem Cursor.meets_variableName (fin : Position) {c : Cursor} {x : String} {rs : List Lexeme}
    (hc : c.lexemes = .mark .dollar :: .ident x :: rs) :
    (c.variableName fin).Meets True fun r after => r.1 = x ∧ after.lexemes = rs := by
  refine (meets_expect fin hc).bind_true ?_
  intro tok after s ha
  exact (meets_ident fin ha).behind s

/-- The token in front of a cursor whose first lexeme is known. -/
theorem Cursor.head_of_lexemes {c : Cursor} {l : Lexeme} {rs : List Lexeme}
    (hc : c.lexemes = l :: rs) : ∃ tok, c.rest.head? = some tok ∧ tok.lexeme = l := by
  obtain ⟨tok, rest, hrest, htok, -⟩ := eq_of_lexemes hc
  exact ⟨tok, by rw [hrest]; rfl, htok⟩

theorem Cursor.head?_lexemes {c : Cursor} {tok : Token} (h : c.rest.head? = some tok) :
    c.lexemes.head? = some tok.lexeme := by
  rw [Cursor.lexemes, List.head?_map, h]
  rfl

theorem Cursor.gives_variableName (fin : Position) (c : Cursor) :
    (c.variableName fin).Gives fun r after =>
      c.lexemes = .mark .dollar :: .ident r.1 :: after.lexemes := by
  refine (gives_expect fin .dollar c).bind ?_
  intro tok after s hc
  refine ((gives_ident fin after).behind s).imp ?_
  rintro ⟨x, pos⟩ after₂ hc₂
  rw [hc, hc₂]

namespace ExprStatement

variable {c start : Cursor} {ts rs : List Lexeme}

/-- Values, each behind its mark, are read up to the semicolon. -/
theorem meets_parseOutput (fin : Position) {values : List (List Lexeme × Expr)}
    (hw : ∀ v ∈ values, v.2.Written v.1) (hwf : ∀ v ∈ values, v.2.WellFormed false)
    (read : List Expr) (h : c.rest.length ≤ start.rest.length) (hf : c.inFuzz = false)
    (hc : c.lexemes = values.flatMap (fun v => .mark .output :: v.1) ++ .mark .semicolon :: rs) :
    (parseOutput fin read c start h).Meets True fun s after =>
      s.bare = (output (read.reverse ++ values.map (·.2))).bare ∧ after.lexemes = rs := by
  induction values generalizing c read with
  | nil =>
    rw [parseOutput, pass?_eq_none (by rw [hc]; simp)]
    refine ((meets_expect fin hc).weaken h).bind_true ?_
    rintro tok after s rfl
    exact ⟨trivial, by simp, rfl⟩
  | cons v values ih =>
    obtain ⟨hv, hw⟩ := List.forall_mem_cons.1 hw
    obtain ⟨hvf, hwf⟩ := List.forall_mem_cons.1 hwf
    rw [List.flatMap_cons, List.append_assoc, List.cons_append] at hc
    obtain ⟨after, s, hp, ha⟩ := pass?_eq_some hc
    rw [← inFuzz_of_pass? hp] at hf
    rw [parseOutput]
    simp only [hp]
    -- behind a value comes another one or the semicolon
    have hends : Expr.Ends
        (values.flatMap (fun v => .mark .output :: v.1) ++ .mark .semicolon :: rs) := by
      cases values with
      | nil => exact Expr.ends_mark (by decide) _
      | cons => exact Expr.ends_mark (by decide) _
    obtain ⟨e, after₂, s₂, he, hbare, ha₂⟩ :=
      (Expr.meets_parse fin hv hvf hf hends ha).exists_parsed
    rw [← inFuzz_congr ((Expr.keeps_parse fin after).of_parsed he)] at hf
    rw [he]
    refine (ih hw hwf (e :: read) (by omega) hf ha₂).imp .rfl ?_
    rintro - st after₃ ⟨hst, ha₃⟩
    exact ⟨by simpa [ExprStatement.bare, hbare] using hst, ha₃⟩

/-- The lexemes of a well-formed statement are read as this statement, up to tags. -/
theorem meets_parse (fin : Position) {st : ExprStatement} (hw : st.Written ts)
    (hwf : st.WellFormed) (hf : c.inFuzz = false) (hc : c.lexemes = ts ++ rs) :
    (parse fin c).Meets True fun st' after => st'.bare = st.bare ∧ after.lexemes = rs := by
  cases hw with
  | @declaration name us value hv =>
    cases hwf with | declaration hn hvf =>
    obtain ⟨tok, hhead, hl⟩ := head_of_lexemes hc
    rw [parse, hhead]
    simp only [hl]
    refine ((meets_variableName fin hc).and_depth (takes_variableName fin).keeps).bind_true ?_
    rintro ⟨x, pos⟩ after s ⟨⟨rfl, ha⟩, hd⟩
    refine (((meets_expect fin ha).and_depth (takes_expect fin _).keeps).behind s).bind_true ?_
    rintro _ after₂ s₂ ⟨ha₂, hd₂⟩
    rw [← inFuzz_congr hd, ← inFuzz_congr hd₂] at hf
    have hends : Expr.Ends (.mark .semicolon :: rs) := Expr.ends_mark (by decide) rs
    refine ((Expr.meets_parse fin hv hvf hf hends (by simpa using ha₂)).behind s₂).bind_true ?_
    rintro e after₃ s₃ ⟨he, ha₃⟩
    refine ((meets_expect fin ha₃).behind s₃).bind_true ?_
    rintro _ after₄ s₄ rfl
    exact ⟨trivial, by simp [ExprStatement.bare, he], rfl⟩
  | @output values hv =>
    cases hwf with | output hne hvf =>
    obtain _ | ⟨v, values⟩ := values
    · exact absurd rfl hne
    obtain ⟨tok, hhead, hl⟩ := head_of_lexemes hc
    rw [parse, hhead]
    simp only [hl]
    refine meets_parseOutput fin hv (List.forall_mem_map.1 hvf) [] (Nat.le_refl _) hf ?_
    rw [hc, List.append_assoc]
    rfl
  | @input us layout hl name =>
    cases hwf with | @input tag items _ hlf hn =>
    -- a sequence begins with a bracket
    obtain ⟨us, rfl⟩ : ∃ vs, us = .mark .openBracket :: vs := by
      cases hl
      exact ⟨_, rfl⟩
    obtain ⟨tok, hhead, htok⟩ := head_of_lexemes hc
    rw [parse, hhead]
    simp only [htok]
    have hends : Expr.Ends
        (.mark .input :: .mark .dollar :: .ident name :: .mark .semicolon :: rs) :=
      Expr.ends_mark (by decide) _
    refine (Expr.meets_parse fin hl hlf hf hends (by simpa using hc)).bind_true ?_
    rintro e after s ⟨he, ha⟩
    refine ((meets_expect fin ha).behind s).bind_true ?_
    intro _ after₂ s₂ ha₂
    refine ((meets_variableName fin ha₂).behind s₂).bind_true ?_
    rintro ⟨x, pos⟩ after₃ s₃ ⟨rfl, ha₃⟩
    refine ((meets_expect fin ha₃).behind s₃).bind_true ?_
    rintro _ after₄ s₄ rfl
    exact ⟨trivial, by simp [ExprStatement.bare, he], rfl⟩

/-- All statements up to the end are read. -/
theorem parseAll_of_written (fin : Position) {ss : List ExprStatement} (hw : AllWritten ts ss)
    (hwf : ∀ s ∈ ss, s.WellFormed) (read : List ExprStatement) (hf : c.inFuzz = false)
    (hc : c.lexemes = ts) :
    ∃ ss' after, parseAll fin read c = (.ok ss', after) ∧
      ss'.map bare = (read.reverse ++ ss).map bare ∧ after.rest = [] := by
  induction hw generalizing c read with
  | nil =>
    have hrest : c.rest = [] := List.map_eq_nil_iff.1 hc
    refine ⟨read.reverse, c, ?_, by simp, hrest⟩
    rw [parseAll]
    split
    · rfl
    · next h => simp [hrest] at h
  | @cons ts us s ss hs _ ih =>
    obtain ⟨hsf, hwf⟩ := List.forall_mem_cons.1 hwf
    obtain ⟨s', after, shorter, hp, hbare, ha⟩ := (meets_parse fin hs hsf hf hc).exists_parsed
    rw [← inFuzz_congr ((keeps_parse fin c).of_parsed hp)] at hf
    obtain ⟨ss', last, hall, hss, hrest⟩ := ih hwf (s' :: read) hf ha
    refine ⟨ss', last, ?_, by simpa [hbare] using hss, hrest⟩
    rw [parseAll]
    split
    · next h => simp [h] at shorter
    · rw [hp]
      exact hall

/-! ### What is read is well-formed -/

theorem gives_parseOutput (fin : Position) (read : List Expr) (c start : Cursor)
    (h : c.rest.length ≤ start.rest.length) (hf : c.inFuzz = false) (hn : Expr.HasNames c) :
    (parseOutput fin read c start h).Gives fun s after =>
      ∃ values : List (List Lexeme × Expr),
        (∀ v ∈ values, v.2.WellFormed false) ∧ (∀ v ∈ values, v.2.Written v.1) ∧
        s = output (read.reverse ++ values.map (·.2)) ∧
        c.lexemes =
          values.flatMap (fun v => .mark .output :: v.1) ++ .mark .semicolon :: after.lexemes := by
  rw [parseOutput]
  split
  · refine ((gives_expect fin .semicolon c).weaken h).bind ?_
    intro tok after s hc
    exact ⟨[], by simp, by simp, by simp, hc⟩
  next after s hp =>
  have hc := lexemes_of_pass? hp
  split
  · trivial
  next e after₂ s₂ he =>
  obtain ⟨hwf, ts, hts, hw⟩ := (Expr.gives_parse fin after (hn.tail hc)).of_parsed he
  rw [← inFuzz_of_pass? hp] at hf
  rw [hf] at hwf
  rw [← inFuzz_congr ((Expr.keeps_parse fin after).of_parsed he)] at hf
  refine (gives_parseOutput fin (e :: read) after₂ start (by omega) hf
    ((hn.tail hc).after hts)).imp ?_
  rintro _ after₃ ⟨values, hwfs, hws, rfl, hc₃⟩
  refine ⟨(ts, e) :: values, ?_, ?_, by simp, ?_⟩
  · exact List.forall_mem_cons.2 ⟨hwf, hwfs⟩
  · exact List.forall_mem_cons.2 ⟨hw, hws⟩
  · rw [hc, hts, hc₃]
    simp
termination_by c.rest.length

theorem gives_parse (fin : Position) (c : Cursor) (hf : c.inFuzz = false)
    (hn : Expr.HasNames c) :
    (parse fin c).Gives fun s after => s.WellFormed ∧ c.Spells after (Written · s) := by
  rw [parse]
  split
  · trivial
  next tok hhead =>
  split
  · refine ((gives_variableName fin c).and_depth (takes_variableName fin).keeps).bind ?_
    rintro ⟨x, pos⟩ after s ⟨hc, hd⟩
    have hassign := (gives_expect fin .assign after).and_depth (takes_expect fin _).keeps
    refine (hassign.behind s).bind ?_
    rintro _ after₂ s₂ ⟨hc₂, hd₂⟩
    have hall : c.lexemes = [.mark .dollar, .ident x, .mark .assign] ++ after₂.lexemes := by
      rw [hc, hc₂]
      rfl
    refine ((Expr.gives_parse fin after₂ (hn.after hall)).behind s₂).bind ?_
    rintro value after₃ s₃ ⟨hwf, ts, hts, hw⟩
    rw [inFuzz_congr hd₂, inFuzz_congr hd, hf] at hwf
    refine ((gives_expect fin .semicolon after₃).behind s₃).bind ?_
    intro _ after₄ s₄ hc₄
    refine ⟨.declaration (hn x (by simp [hc])) hwf, _, ?_, .declaration x hw⟩
    rw [hall, hts, hc₄]
    simp
  · next hl =>
    refine (gives_parseOutput fin [] c c (Nat.le_refl _) hf hn).imp ?_
    rintro _ after ⟨values, hwf, hw, rfl, hc⟩
    -- the first token is a mark of output, not the semicolon
    have hne : values ≠ [] := by
      rintro rfl
      have hfirst := head?_lexemes hhead
      rw [hc, hl] at hfirst
      cases hfirst
    refine ⟨.output (by simpa using hne) (List.forall_mem_map.2 hwf), _, ?_, .output hw⟩
    rw [hc]
    simp
  · next hl =>
    refine (Expr.gives_parse fin c hn).bind ?_
    rintro layout after s ⟨hwf, ts, hts, hw⟩
    rw [hf] at hwf
    refine ((gives_expect fin .input after).behind s).bind ?_
    intro _ after₂ s₂ hc₂
    refine ((gives_variableName fin after₂).behind s₂).bind ?_
    rintro ⟨x, pos⟩ after₃ s₃ hc₃
    refine ((gives_expect fin .semicolon after₃).behind s₃).bind ?_
    intro _ after₄ s₄ hc₄
    have hname : IsName x := hn x (by simp [hts, hc₂, hc₃])
    have hall : c.lexemes =
        ts ++ [.mark .input, .mark .dollar, .ident x, .mark .semicolon] ++ after₄.lexemes := by
      rw [hts, hc₂, hc₃, hc₄]
      simp
    -- only a sequence begins with a bracket
    obtain ⟨tag, items, rfl⟩ : ∃ tag items, layout = .sequence tag items := by
      have hfirst := head?_lexemes hhead
      rw [hts, hl] at hfirst
      cases hw with
      | sequence tag => exact ⟨tag, _, rfl⟩
      | _ => simp at hfirst
    exact ⟨.input hwf hname, _, hall, .input hw x⟩
  · trivial

/-- Statements that are read are well-formed, and all lexemes together spell them. -/
theorem written_of_parseAll {fin : Position} {read ss : List ExprStatement} {c after : Cursor}
    (hf : c.inFuzz = false) (hn : Expr.HasNames c) (h : parseAll fin read c = (.ok ss, after)) :
    ∃ ss', ss = read.reverse ++ ss' ∧ (∀ s ∈ ss', s.WellFormed) ∧ AllWritten c.lexemes ss' := by
  fun_induction parseAll fin read c with
  | case1 read c hrest =>
    cases h
    refine ⟨[], by simp, by simp, ?_⟩
    rw [Cursor.lexemes, hrest]
    exact .nil
  | case2 => cases h
  | case3 read c tok rest hrest s next shorter hp ih =>
    obtain ⟨hwf, ts, hts, hw⟩ := (gives_parse fin c hf hn).of_parsed hp
    rw [← inFuzz_congr ((keeps_parse fin c).of_parsed hp)] at hf
    obtain ⟨ss', rfl, hwfs, hws⟩ := ih hf (hn.after hts) h
    refine ⟨s :: ss', by simp, List.forall_mem_cons.2 ⟨hwf, hwfs⟩, ?_⟩
    rw [hts]
    exact .cons hw hws

end ExprStatement

end ScriptFuzz
