import ScriptFuzz.Proofs.Language.Grammar
import ScriptFuzz.Proofs.Reading.Scopes

/-!
# Reading templates

A template that is spelled in front of a cursor is read exactly if it keeps the rules, and what is
read is built as `Source.Entry.build` says (`TemplateBuilder.meets_parse`). What follows an item
must not begin with an opening parenthesis, which would be taken for the argument of the item.
-/

namespace ScriptFuzz

open Source Cursor ParseResult

namespace TemplateBuilder

variable {k : Known} {names : Naming} {b : TemplateBuilder} {fuzz : Bool} {c start : Cursor}
  {ts rs : List Lexeme}

/-! ## Arguments -/

/-- Without a parenthesis there is no argument. -/
theorem meets_parseOptional_default {α : Type} (fin : Position)
    (h : c.rest.length < start.rest.length) (default : α)
    (argument : (c : Cursor) → ParseResult α c)
    (hrs : c.lexemes.head? ≠ some (.mark .openParen)) :
    (parseOptional fin c h default argument : ParseResult _ start).Meets True
      fun v after => v = default ∧ after.lexemes = c.lexemes := by
  rw [parseOptional, pass?_eq_none hrs]
  exact ⟨trivial, rfl, rfl⟩

/-- An argument is one lexeme between parentheses. -/
theorem meets_parseOptional_argument {α : Type} (fin : Position)
    (h : c.rest.length < start.rest.length) (default : α)
    {argument : (c : Cursor) → ParseResult α c} {l : Lexeme} {ok : Prop} {v : α}
    (ha : ∀ c rs, c.lexemes = l :: rs →
      (argument c).Meets ok fun v' after => v' = v ∧ after.lexemes = rs)
    (hc : c.lexemes = .mark .openParen :: l :: .mark .closeParen :: rs) :
    (parseOptional fin c h default argument : ParseResult _ start).Meets ok
      fun v' after => v' = v ∧ after.lexemes = rs := by
  obtain ⟨after, s, hp, hafter⟩ := pass?_eq_some hc
  rw [parseOptional]
  simp only [hp]
  refine (((ha after _ hafter).behind s).behind h).bind_then ?_
  rintro - v' after₂ s₂ ⟨hv, ha₂⟩
  refine ((meets_expect fin ha₂).behind _).bind_true ?_
  intro _ after₃ s₃ ha₃
  exact ⟨trivial, hv, ha₃⟩

theorem meets_parseSeed (fin : Position) {s : String} (hc : c.lexemes = .string s :: rs) :
    (parseSeed fin c).Meets True fun v after => v = some s ∧ after.lexemes = rs := by
  refine (meets_take fin _ hc).bind_true ?_
  rintro t after s ⟨hl, ha⟩
  rw [hl]
  exact ⟨trivial, rfl, ha⟩

theorem meets_parseElement (fin : Position) {kw : Keyword} {w : Width}
    (hk : kw.scalarWidth? = some w) (hc : c.lexemes = .keyword kw :: rs) :
    (parseElement fin c).Meets True fun w' after => w' = w ∧ after.lexemes = rs := by
  refine (meets_take fin _ hc).bind_true ?_
  rintro t after s ⟨hl, ha⟩
  simp only [hl, hk]
  exact ⟨trivial, rfl, ha⟩

/-- One bound stands for both. -/
theorem meets_parseBounds_one (fin : Position) (h : c.rest.length ≤ start.rest.length) {n : UInt64}
    (hc : c.lexemes = .integer n :: .mark .closeParen :: rs) :
    (parseBounds fin fuzz c h : ParseResult _ start).Meets True
      fun r after => (r.1, r.2.1) = (n, n) ∧ after.lexemes = .mark .closeParen :: rs := by
  refine ((meets_integer fin hc).weaken h).bind_true ?_
  rintro ⟨v, pos⟩ after s ⟨rfl, ha⟩
  rw [pass?_eq_none (by rw [ha]; simp)]
  exact ⟨trivial, rfl, ha⟩

/-- Two bounds need braces. -/
theorem meets_parseBounds_two (fin : Position) (h : c.rest.length ≤ start.rest.length)
    {n m : UInt64} (hc : c.lexemes = .integer n :: .mark .minus :: .integer m :: rs) :
    (parseBounds fin fuzz c h : ParseResult _ start).Meets fuzz
      fun r after => (r.1, r.2.1) = (n, m) ∧ after.lexemes = rs := by
  refine ((meets_integer fin hc).weaken h).bind_true ?_
  rintro ⟨v, pos⟩ after s ⟨rfl, ha⟩
  obtain ⟨after₂, s₂, hp, ha₂⟩ := pass?_eq_some ha
  simp only [hp]
  refine (((meets_integer fin ha₂).behind s₂).behind s).bind_true ?_
  rintro ⟨v', pos'⟩ after₃ s₃ ⟨rfl, ha₃⟩
  dsimp only
  split
  · next hf => exact ⟨hf, rfl, ha₃⟩
  · next hf => exact hf

/-- An array is read behind its keyword: what it is made of, and its bounds. -/
theorem meets_parseArray {kw : Keyword} {w : Width} (hk : kw.scalarWidth? = some w)
    (fin pos : Position) (known : List (String × Template)) (h : c.rest.length < start.rest.length)
    {lower : UInt64} {upper : Option UInt64}
    (bounds : List Lexeme)
    (hb : ∀ (c : Cursor) (h : c.rest.length ≤ start.rest.length),
      c.lexemes = bounds ++ .mark .closeParen :: rs →
      (parseBounds fin fuzz c h : ParseResult _ start).Meets (∀ n ∈ upper, fuzz)
        fun r after => (r.1, r.2.1) = (lower, upper.getD lower) ∧
          after.lexemes = .mark .closeParen :: rs)
    (hc : c.lexemes = .mark .less :: .keyword kw :: .mark .greater :: .mark .openParen ::
      (bounds ++ .mark .closeParen :: rs)) :
    (parseArray fin b fuzz pos c h : ParseResult _ start).Meets
      ((Source.Field.array w lower upper).Valid names fuzz)
      fun b' after => b' = (Source.Field.array w lower upper).build known fuzz b ∧
        after.lexemes = rs := by
  refine ((meets_expect fin hc).behind _).bind_true ?_
  intro _ after₁ s₁ ha₁
  refine ((meets_parseElement fin hk ha₁).behind _).bind_true ?_
  rintro w after₂ s₂ ⟨rfl, ha₂⟩
  refine ((meets_expect fin ha₂).behind _).bind_true ?_
  intro _ after₃ s₃ ha₃
  refine ((meets_expect fin ha₃).behind _).bind_true ?_
  intro _ after₄ s₄ ha₄
  have hvalid : (∀ n ∈ upper, fuzz) ∧ ((∀ n ∈ upper, lower ≤ n) ∧
      (fuzz ∨ lower.toNat * w.bytes < 2 ^ (64 : Nat))) ↔
      (Source.Field.array w lower upper).Valid names fuzz := by
    rw [Source.Field.Valid]
    constructor
    · rintro ⟨hf, hle, hs⟩
      exact ⟨fun n hn => ⟨hf n hn, hle n hn⟩, hs⟩
    · rintro ⟨hu, hs⟩
      exact ⟨fun n hn => (hu n hn).1, fun n hn => (hu n hn).2, hs⟩
  refine Meets.congr ((hb after₄ (by omega) ha₄).bind ?_) hvalid
  rintro - ⟨n, m, pos'⟩ after₅ s₅ ⟨hbounds, ha₅⟩
  obtain ⟨rfl, rfl⟩ : n = lower ∧ m = upper.getD lower := Prod.mk.inj hbounds
  refine ((meets_expect fin ha₅).behind _).bind_true ?_
  intro _ after₆ s₆ ha₆
  have hle : (∀ m ∈ upper, n ≤ m) ↔ ¬ upper.getD n < n := by
    cases upper <;> simp [UInt64.not_lt]
  dsimp only
  rw [hle, Source.Field.build]
  by_cases hlt : upper.getD n < n
  · rw [if_pos hlt]
    intro h
    exact h.1 hlt
  rw [if_neg hlt]
  by_cases hf : fuzz
  · rw [if_pos hf, if_pos hf]
    exact ⟨⟨hlt, .inl hf⟩, rfl, ha₆⟩
  rw [if_neg hf, if_neg hf]
  by_cases hsize : n.toNat * w.bytes < 2 ^ (64 : Nat)
  · rw [if_pos hsize]
    exact ⟨⟨hlt, .inr hsize⟩, rfl, ha₆⟩
  · rw [if_neg hsize]
    intro h
    exact h.2.elim hf hsize

/-! ## Items -/

theorem meets_pushReference {tree : ScriptTree} (hd : tree.Declares names) (x : String)
    (pos : Position) (h : c.rest.length < start.rest.length) :
    (pushReference tree.templates b x pos c h : ParseResult _ start).Meets
      ((Source.Field.reference x).Valid names fuzz)
      fun b' after => b' = (Source.Field.reference x).build tree.templates fuzz b ∧
        after.lexemes = c.lexemes := by
  rw [pushReference, Source.Field.Valid, Source.Field.build, hd.templates]
  cases tree.templates.lookup x with
  | none =>
    intro h
    cases h
  | some t => exact ⟨rfl, rfl, rfl⟩

theorem meets_parseScalar_argument (fin : Position) {w : Width} (known : List (String × Template))
    (h : c.rest.length < start.rest.length) {v : UInt64}
    (hc : c.lexemes = .mark .openParen :: .integer v :: .mark .closeParen :: rs) :
    (parseScalar fin b w fuzz c h : ParseResult _ start).Meets
      ((Source.Field.scalar w (some v)).Valid names fuzz)
      fun b' after => b' = (Source.Field.scalar w (some v)).build known fuzz b ∧
        after.lexemes = rs := by
  have hvalid : v.toNat ≤ w.max ↔ (Source.Field.scalar w (some v)).Valid names fuzz := by
    simp [Source.Field.Valid]
  refine Meets.congr ((meets_parseOptional_argument (v := v) fin h 0 ?_ hc).bind_then ?_) hvalid
  · intro c rs hc
    refine (meets_integer fin hc).bind_true ?_
    rintro ⟨v', pos⟩ after s ⟨rfl, ha⟩
    dsimp only
    split
    · next hle => exact ⟨hle, rfl, ha⟩
    · next hle => exact hle
  · rintro - _ after s ⟨rfl, ha⟩
    exact ⟨trivial, rfl, ha⟩

/-- A scalar is read behind its keyword. -/
theorem meets_parseScalar_default (fin : Position) {w : Width} (known : List (String × Template))
    (h : c.rest.length < start.rest.length) (hrs : c.lexemes.head? ≠ some (.mark .openParen)) :
    (parseScalar fin b w fuzz c h : ParseResult _ start).Meets
      ((Source.Field.scalar w none).Valid names fuzz)
      fun b' after => b' = (Source.Field.scalar w none).build known fuzz b ∧
        after.lexemes = c.lexemes := by
  have hvalid : True ↔ (Source.Field.scalar w none).Valid names fuzz := by simp [Source.Field.Valid]
  refine Meets.congr ((meets_parseOptional_default fin h 0 _ hrs).bind_true ?_) hvalid
  rintro _ after s ⟨rfl, ha⟩
  exact ⟨trivial, rfl, ha⟩

section Keywords

variable (k : Known) (b : TemplateBuilder) (fuzz : Bool)

theorem parseItem_eq_parseScalar {kw : Keyword} {w : Width} (hk : kw.scalarWidth? = some w)
    (hc : c.lexemes = .keyword kw :: rs) :
    ∃ after h, parseItem k b fuzz c = parseScalar k.fin b w fuzz after h ∧ after.lexemes = rs := by
  obtain ⟨t, after, s, ht, hl, ha⟩ := take_of_lexemes k.fin hc
  refine ⟨after, s, ?_, ha⟩
  rw [parseItem, ht]
  dsimp only
  rw [hl]
  split
  · next heq => cases heq; cases hk
  · next heq => cases heq; cases hk
  · next heq => cases heq; cases hk
  · next heq => cases heq; cases hk
  · next heq =>
    cases heq
    simp only [hk]
  all_goals simp_all

theorem parseItem_eq_parseString (form : StringForm)
    (hc : c.lexemes = .keyword form.keyword :: rs) :
    ∃ after h, parseItem k b fuzz c = parseString k.fin b form fuzz after h ∧
      after.lexemes = rs := by
  obtain ⟨t, after, s, ht, hl, ha⟩ := take_of_lexemes k.fin hc
  refine ⟨after, s, ?_, ha⟩
  rw [parseItem, ht]
  cases form <;> simp only [hl, StringForm.keyword]

theorem parseItem_eq_parseArray (hc : c.lexemes = .keyword .array :: rs) :
    ∃ pos after h, parseItem k b fuzz c = parseArray k.fin b fuzz pos after h ∧
      after.lexemes = rs := by
  obtain ⟨t, after, s, ht, hl, ha⟩ := take_of_lexemes k.fin hc
  refine ⟨t.pos, after, s, ?_, ha⟩
  rw [parseItem, ht]
  simp only [hl]

theorem parseItem_eq_pushReference {x : String} (hx : Named ts x) (hc : c.lexemes = ts ++ rs) :
    ∃ pos after h,
      parseItem k b fuzz c = pushReference k.tree.templates b x pos after h ∧
        after.lexemes = rs := by
  cases hx with
  | plain =>
    obtain ⟨t, after, s, ht, hl, ha⟩ := take_of_lexemes k.fin hc
    refine ⟨t.pos, after, s, ?_, ha⟩
    rw [parseItem, ht]
    simp only [hl]
  | dollar =>
    obtain ⟨t, after, s, ht, hl, ha⟩ := take_of_lexemes k.fin hc
    obtain ⟨⟨y, pos⟩, after₂, s₂, hi, rfl, ha₂⟩ := (meets_ident k.fin ha).exists_parsed
    refine ⟨pos, after₂, by omega, ?_, ha₂⟩
    rw [parseItem, ht]
    simp only [hl, hi]
    rfl

end Keywords

/-- An item that is spelled is read, if it keeps the rules. -/
theorem meets_parseItem_field {f : Source.Field} (hw : f.Written ts) (hd : k.tree.Declares names)
    (hrs : rs.head? ≠ some (.mark .openParen)) (hc : c.lexemes = ts ++ rs) :
    (parseItem k b fuzz c).Meets (f.Valid names fuzz)
      fun b' after => b' = f.build k.tree.templates fuzz b ∧ after.lexemes = rs := by
  cases hw with
  | scalar hk =>
    obtain ⟨after, h, hp, rfl⟩ := parseItem_eq_parseScalar k b fuzz hk hc
    rw [hp]
    exact meets_parseScalar_default k.fin _ h hrs
  | value hk v =>
    obtain ⟨after, h, hp, ha⟩ := parseItem_eq_parseScalar k b fuzz hk hc
    rw [hp]
    exact meets_parseScalar_argument k.fin _ h ha
  | string form =>
    obtain ⟨after, h, hp, rfl⟩ := parseItem_eq_parseString k b fuzz form hc
    rw [hp]
    refine (meets_parseOptional_default k.fin h none _ hrs).bind_true ?_
    rintro _ after₂ s ⟨rfl, ha⟩
    exact ⟨trivial, rfl, ha⟩
  | seed form s =>
    obtain ⟨after, h, hp, ha⟩ := parseItem_eq_parseString k b fuzz form hc
    rw [hp]
    refine (meets_parseOptional_argument k.fin h none
      (fun c rs => meets_parseSeed k.fin) ha).bind_true ?_
    rintro _ after₂ s ⟨rfl, ha₂⟩
    exact ⟨trivial, rfl, ha₂⟩
  | @array kw w hk n =>
    obtain ⟨pos, after, h, hp, ha⟩ := parseItem_eq_parseArray k b fuzz hc
    rw [hp]
    refine meets_parseArray hk k.fin pos _ h [.integer n] (fun c h hc => ?_) ha
    exact (meets_parseBounds_one k.fin h hc).congr (by simp)
  | @range kw w hk n m =>
    obtain ⟨pos, after, h, hp, ha⟩ := parseItem_eq_parseArray k b fuzz hc
    rw [hp]
    refine meets_parseArray hk k.fin pos _ h [.integer n, .mark .minus, .integer m]
      (fun c h hc => ?_) ha
    exact (meets_parseBounds_two k.fin h hc).congr (by simp)
  | reference hx =>
    obtain ⟨pos, after, h, hp, rfl⟩ := parseItem_eq_pushReference k b fuzz hx hc
    rw [hp]
    exact meets_pushReference hd _ pos h

/-- Items with commas between them are read one after the other, if each of them is read by itself.
-/
theorem meets_parseItems {α : Type} {valid : α → Prop}
    {build : TemplateBuilder → α → TemplateBuilder}
    {pieces : List (List Lexeme × α)} (hne : pieces ≠ [])
    (hread : ∀ p ∈ pieces, ∀ (b : TemplateBuilder) (c : Cursor) (rs : List Lexeme),
      rs.head? ≠ some (.mark .openParen) → c.lexemes = p.1 ++ rs →
      (parseItem k b fuzz c).Meets (valid p.2)
        fun b' after => b' = build b p.2 ∧ after.lexemes = rs)
    (h : c.rest.length ≤ start.rest.length) (hparen : rs.head? ≠ some (.mark .openParen))
    (hcomma : rs.head? ≠ some (.mark .comma)) (hc : c.lexemes = commas (pieces.map (·.1)) ++ rs) :
    (parseItems k b fuzz c start h).Meets (∀ a ∈ pieces.map (·.2), valid a)
      fun b' after => b' = (pieces.map (·.2)).foldl build b ∧ after.lexemes = rs := by
  induction pieces generalizing b c with
  | nil => exact absurd rfl hne
  | cons p pieces ih =>
    obtain ⟨hp, hread⟩ := List.forall_mem_cons.1 hread
    rw [parseItems]
    cases pieces with
    | nil =>
      have hitem := hp b c rs hparen hc
      split
      · next hq =>
        intro h
        exact hitem.of_stopped hq (by simpa using h)
      next b' after s hq =>
      obtain ⟨hvalid, rfl, ha⟩ := hitem.of_parsed hq
      rw [pass?_eq_none (by rwa [ha])]
      exact ⟨by simpa using hvalid, rfl, ha⟩
    | cons q pieces =>
      rw [List.map_cons, List.map_cons, commas_cons, List.append_assoc] at hc
      have hitem := hp b c _ (by simp) hc
      rw [List.map_cons]
      split
      · next hq =>
        intro h
        exact hitem.of_stopped hq (h _ List.mem_cons_self)
      next b' after s hq =>
      obtain ⟨hvalid, rfl, ha⟩ := hitem.of_parsed hq
      obtain ⟨after₂, s₂, hpass, ha₂⟩ := pass?_eq_some ha
      simp only [hpass]
      refine (ih (by simp) hread (by omega) ha₂).imp ?_ fun _ _ _ h => h
      rw [List.forall_mem_cons, and_iff_right hvalid]

/-- What stands between two commas of a template is read, if it keeps the rules. -/
theorem meets_parseItem_entry {e : Entry} (hw : e.Written ts) (hd : k.tree.Declares names)
    (hrs : rs.head? ≠ some (.mark .openParen)) (hc : c.lexemes = ts ++ rs) :
    (parseItem k b false c).Meets (e.Valid names)
      fun b' after => b' = e.build k.tree.templates b ∧ after.lexemes = rs := by
  cases hw with
  | field hf => exact meets_parseItem_field hf hd hrs hc
  | group hne hf =>
    simp only [List.append_assoc, List.cons_append] at hc
    obtain ⟨t, after, s, ht, hl, ha⟩ := take_of_lexemes k.fin hc
    rw [parseItem, ht]
    simp only [hl, Bool.false_eq_true, if_false]
    refine (meets_parseItems hne
      (fun p hp b c rs hrs hc => meets_parseItem_field (hf p hp) hd hrs hc) _ (by simp) (by simp)
      ha).bind_then ?_
    rintro - b' after₂ s₂ ⟨rfl, ha₂⟩
    refine ((meets_expect k.fin ha₂).behind _).bind_true ?_
    intro _ after₃ s₃ ha₃
    exact ⟨trivial, rfl, ha₃⟩

/-- A template that is spelled is read, if it keeps the rules. -/
theorem meets_parse {name : String} {entries : List (List Lexeme × Entry)} (hne : entries ≠ [])
    (hw : ∀ e ∈ entries, e.2.Written e.1) (hd : k.tree.Declares names)
    (hc : c.lexemes = .ident name :: .mark .assign :: .mark .openBracket ::
      (commas (entries.map (·.1)) ++ .mark .closeBracket :: .mark .semicolon :: rs)) :
    (parse k c).Meets ((Declaration.template name (entries.map (·.2))).Valid names)
      fun r after =>
        r = (name,
          (entries.map (·.2)).foldl (Entry.build k.tree.templates) { pool := k.tree.pool }) ∧
        after.lexemes = rs := by
  refine (meets_ident k.fin hc).bind_true ?_
  rintro ⟨x, pos⟩ after s ⟨rfl, ha⟩
  rw [Declaration.Valid, hd.templates]
  dsimp only at ha ⊢
  split
  · next hx =>
    intro h
    exact h.1 hx
  next hx =>
  rw [and_iff_right hx]
  refine ((meets_expect k.fin ha).behind _).bind_true ?_
  intro _ after₂ s₂ ha₂
  refine ((meets_expect k.fin ha₂).behind _).bind_true ?_
  intro _ after₃ s₃ ha₃
  refine (meets_parseItems hne
    (fun e he b c rs hrs hc => meets_parseItem_entry (hw e he) hd hrs hc) _ (by simp) (by simp)
    ha₃).bind_then ?_
  rintro - b after₄ s₄ ⟨rfl, ha₄⟩
  refine ((meets_expect k.fin ha₄).behind _).bind_true ?_
  intro _ after₅ s₅ ha₅
  refine ((meets_expect k.fin ha₅).behind _).bind_true ?_
  intro _ after₆ s₆ ha₆
  exact ⟨trivial, rfl, ha₆⟩

end TemplateBuilder

end ScriptFuzz
