import ScriptFuzz.Proofs.Language.Tree
import ScriptFuzz.Token.Scan

/-!
# The grammar of scripts

Which sequences of lexemes spell which trees. The rules are those of a context-free grammar, one
constructor for each alternative:

- `Term.Written`: expressions, on three levels. A product is a factor, or a product and a factor
  behind it with `*` or `/` between them, so that `*` and `/` group to the left; a sum is built of
  products in the same way with `+` and `-`. So `*` and `/` bind tighter than `+` and `-`.
- `Statement.Written`, `Function.Written`: statements and functions.
- `Field.Written`, `Entry.Written`: the items of templates, with at most one level of braces.
- `Program.Written`: whole scripts.

Nothing is said here about what names stand for or whether numbers fit (`Language/Rules`).
-/

namespace ScriptFuzz

/-- The mark of an operator. -/
def ProductOp.mark : ProductOp → Mark
  | mul => .star
  | div => .slash

/-- The mark of an operator. -/
def SumOp.mark : SumOp → Mark
  | add => .plus
  | sub => .minus

/-- The keyword of a form. -/
def StringForm.keyword : StringForm → Keyword
  | terminated => .cstring
  | line => .line

/-- Whether a lexeme is not malformed. -/
def Lexeme.sound : Lexeme → Bool
  | malformed _ => false
  | _ => true

/-- Whether a lexeme can stand in an expression, as far as `=` and malformed ones go. -/
def Lexeme.inTerm : Lexeme → Bool
  | mark .assign => false
  | l => l.sound

namespace Source

/-- The lexemes of a source text. -/
def lexemes (source : String) : List Lexeme :=
  (TokenStream.ofSource source).tokens.map Token.lexeme

/-- Pieces with commas between them. -/
def commas : List (List Lexeme) → List Lexeme
  | [] => []
  | [ts] => ts
  | ts :: us :: pieces => ts ++ .mark .comma :: commas (us :: pieces)

@[simp] theorem commas_singleton (ts : List Lexeme) : commas [ts] = ts := rfl

@[simp] theorem commas_cons (ts us : List Lexeme) (pieces : List (List Lexeme)) :
    commas (ts :: us :: pieces) = ts ++ .mark .comma :: commas (us :: pieces) := rfl

theorem all_commas {P : Lexeme → Bool} (hcomma : P (.mark .comma)) {pieces : List (List Lexeme)}
    (h : ∀ ts ∈ pieces, ts.all P) : (commas pieces).all P := by
  induction pieces with
  | nil => rfl
  | cons ts pieces ih =>
    obtain ⟨hts, hp⟩ := List.forall_mem_cons.1 h
    cases pieces with
    | nil => exact hts
    | cons us pieces => rw [commas_cons, List.all_append, List.all_cons, hts, hcomma, ih hp]; rfl

/-- The use of a name, with or without a dollar sign before it. -/
inductive Named : List Lexeme → String → Prop
  | plain (x : String) : Named [.ident x] x
  | dollar (x : String) : Named [.mark .dollar, .ident x] x

/-- The levels of expressions. -/
inductive Level where
  | factor
  | product
  | sum

/-- The lexemes that spell an expression on a level. -/
inductive Term.Written : Level → List Lexeme → Term → Prop
  | int (v : UInt64) : Written .factor [.integer v] (.int v.toNat)
  | minus (v : UInt64) : Written .factor [.mark .minus, .integer v] (.int (-v.toNat))
  | plus {ts : List Lexeme} {e : Term} (he : Written .factor ts e) :
      Written .factor (.mark .plus :: ts) e
  | text (s : String) : Written .factor [.string s] (.text s)
  | name {ts : List Lexeme} {x : String} (hx : Named ts x) : Written .factor ts (.name x)
  | call {ts : List Lexeme} {f : String} {arguments : List (List Lexeme × Term)}
      (hf : Named ts f) (ha : ∀ a ∈ arguments, Written .sum a.1 a.2) :
      Written .factor
        (ts ++ .mark .openParen :: commas (arguments.map (·.1)) ++ [.mark .closeParen])
        (.call f (arguments.map (·.2)))
  | factor {ts : List Lexeme} {e : Term} (he : Written .factor ts e) : Written .product ts e
  | productOp (op : ProductOp) {ts us : List Lexeme} {l r : Term}
      (hl : Written .product ts l) (hr : Written .factor us r) :
      Written .product (ts ++ .mark op.mark :: us) (.arith op.arith l r)
  | product {ts : List Lexeme} {e : Term} (he : Written .product ts e) : Written .sum ts e
  | sumOp (op : SumOp) {ts us : List Lexeme} {l r : Term}
      (hl : Written .sum ts l) (hr : Written .product us r) :
      Written .sum (ts ++ .mark op.mark :: us) (.arith op.arith l r)

/-- An expression does not begin with a closing parenthesis. -/
theorem Term.Written.begins {level : Level} {ts : List Lexeme} {e : Term}
    (hw : e.Written level ts) : ∃ l ls, ts = l :: ls ∧ l ≠ .mark .closeParen := by
  induction hw with
  | int | minus | plus | text => exact ⟨_, _, rfl, by simp⟩
  | name hx => cases hx <;> exact ⟨_, _, rfl, by simp⟩
  | call hf => cases hf <;> exact ⟨_, _, rfl, by simp⟩
  | factor _ ih => exact ih
  | product _ ih => exact ih
  | productOp _ _ _ ih =>
    obtain ⟨l, ls, rfl, hl⟩ := ih
    exact ⟨l, _, rfl, hl⟩
  | sumOp _ _ _ ih =>
    obtain ⟨l, ls, rfl, hl⟩ := ih
    exact ⟨l, _, rfl, hl⟩

/-- There is no `=` in an expression, and nothing malformed. -/
theorem Term.Written.all_inTerm {level : Level} {ts : List Lexeme} {e : Term}
    (hw : e.Written level ts) : ts.all Lexeme.inTerm := by
  induction hw with
  | int | minus | text => rfl
  | plus _ ih => exact ih
  | name hx => cases hx <;> rfl
  | call hf _ ih =>
    have hcommas := all_commas (P := Lexeme.inTerm) rfl (List.forall_mem_map.2 ih)
    rw [List.all_append, List.all_append, List.all_cons, hcommas]
    cases hf <;> rfl
  | factor _ ih => exact ih
  | product _ ih => exact ih
  | productOp op _ _ ihl ihr =>
    rw [List.all_append, List.all_cons, ihl, ihr]
    cases op <;> rfl
  | sumOp op _ _ ihl ihr =>
    rw [List.all_append, List.all_cons, ihl, ihr]
    cases op <;> rfl

theorem Term.Written.assign_not_mem {level : Level} {ts : List Lexeme} {e : Term}
    (hw : e.Written level ts) : Lexeme.mark .assign ∉ ts := by
  intro h
  cases List.all_eq_true.1 hw.all_inTerm _ h

theorem Term.Written.all_sound {level : Level} {ts : List Lexeme} {e : Term}
    (hw : e.Written level ts) : ts.all Lexeme.sound := by
  refine List.all_eq_true.2 ?_
  intro l hl
  have hin := List.all_eq_true.1 hw.all_inTerm l hl
  cases l with
  | malformed => cases hin
  | _ => rfl

/-- The lexemes that spell a statement. An expression that is a statement begins with a name. -/
inductive Statement.Written : List Lexeme → Statement → Prop
  | declare {ts us : List Lexeme} {x : String} {e : Term} (hx : Named ts x)
      (he : e.Written .sum us) :
      Written (.keyword .var :: ts ++ .mark .assign :: us ++ [.mark .semicolon]) (.declare x e)
  | assign {ts us : List Lexeme} {x : String} {e : Term} (hx : Named ts x)
      (he : e.Written .sum us) :
      Written (ts ++ .mark .assign :: us ++ [.mark .semicolon]) (.assign x e)
  | result {ts : List Lexeme} {e : Term} (he : e.Written .sum ts) :
      Written (.keyword .returns :: ts ++ [.mark .semicolon]) (.result e)
  | evaluate {ts us : List Lexeme} {x : String} {e : Term} (hx : Named ts x)
      (he : e.Written .sum (ts ++ us)) :
      Written (ts ++ us ++ [.mark .semicolon]) (.evaluate e)

/-- A statement does not begin with a closing brace. -/
theorem Statement.Written.begins {ts : List Lexeme} {s : Statement} (hw : s.Written ts) :
    ∃ l ls, ts = l :: ls ∧ l ≠ .mark .closeBrace := by
  cases hw with
  | declare | result => exact ⟨_, _, rfl, by simp⟩
  | assign hx => cases hx <;> exact ⟨_, _, rfl, by simp⟩
  | evaluate hx => cases hx <;> exact ⟨_, _, rfl, by simp⟩

theorem Statement.Written.all_sound {ts : List Lexeme} {s : Statement} (hw : s.Written ts) :
    ts.all Lexeme.sound := by
  cases hw with
  | declare hx he => cases hx <;> simp [Lexeme.sound, he.all_sound]
  | assign hx he => cases hx <;> simp [Lexeme.sound, he.all_sound]
  | result he => simp [Lexeme.sound, he.all_sound]
  | evaluate _ he => rw [List.all_append, he.all_sound]; rfl

/-- The lexemes that spell a function. -/
inductive Function.Written : List Lexeme → Function → Prop
  | mk (name : String) (params : List String) {body : List (List Lexeme × Statement)}
      (hb : ∀ s ∈ body, s.2.Written s.1) :
      Written
        (.keyword .function :: .ident name :: .mark .openParen ::
          commas (params.map fun x => [.ident x]) ++ .mark .closeParen :: .mark .openBrace ::
          (body.map (·.1)).flatten ++ [.mark .closeBrace])
        { name, params, body := body.map (·.2) }

theorem Function.Written.all_sound {ts : List Lexeme} {f : Function} (hw : f.Written ts) :
    ts.all Lexeme.sound := by
  obtain ⟨name, params, hb⟩ := hw
  have hparams : (commas (params.map fun x => [.ident x])).all Lexeme.sound :=
    all_commas rfl (List.forall_mem_map.2 fun _ _ => rfl)
  rename_i body
  have hbody : ((body.map (·.1)).flatten).all Lexeme.sound := by
    rw [List.all_flatten, List.all_eq_true]
    exact List.forall_mem_map.2 fun s hs => (hb s hs).all_sound
  simp [Lexeme.sound, hparams, hbody]

/-- The lexemes that spell an item of a template. -/
inductive Field.Written : List Lexeme → Field → Prop
  | scalar {k : Keyword} {w : Width} (hk : k.scalarWidth? = some w) :
      Written [.keyword k] (.scalar w none)
  | value {k : Keyword} {w : Width} (hk : k.scalarWidth? = some w) (v : UInt64) :
      Written [.keyword k, .mark .openParen, .integer v, .mark .closeParen] (.scalar w (some v))
  | string (form : StringForm) : Written [.keyword form.keyword] (.string form none)
  | seed (form : StringForm) (s : String) :
      Written [.keyword form.keyword, .mark .openParen, .string s, .mark .closeParen]
        (.string form (some s))
  | array {k : Keyword} {w : Width} (hk : k.scalarWidth? = some w) (n : UInt64) :
      Written
        [.keyword .array, .mark .less, .keyword k, .mark .greater, .mark .openParen, .integer n,
          .mark .closeParen]
        (.array w n none)
  | range {k : Keyword} {w : Width} (hk : k.scalarWidth? = some w) (n m : UInt64) :
      Written
        [.keyword .array, .mark .less, .keyword k, .mark .greater, .mark .openParen, .integer n,
          .mark .minus, .integer m, .mark .closeParen]
        (.array w n (some m))
  | reference {ts : List Lexeme} {x : String} (hx : Named ts x) : Written ts (.reference x)

theorem Field.Written.all_sound {ts : List Lexeme} {f : Field} (hw : f.Written ts) :
    ts.all Lexeme.sound := by
  cases hw with
  | reference hx => cases hx <;> rfl
  | _ => rfl

/-- The lexemes that spell what stands between two commas of a template. -/
inductive Entry.Written : List Lexeme → Entry → Prop
  | field {ts : List Lexeme} {f : Field} (hf : f.Written ts) : Written ts (.field f)
  | group {fields : List (List Lexeme × Field)} (hne : fields ≠ [])
      (hf : ∀ f ∈ fields, f.2.Written f.1) :
      Written (.mark .openBrace :: commas (fields.map (·.1)) ++ [.mark .closeBrace])
        (.group (fields.map (·.2)))

theorem Entry.Written.all_sound {ts : List Lexeme} {e : Entry} (hw : e.Written ts) :
    ts.all Lexeme.sound := by
  cases hw with
  | field hf => exact hf.all_sound
  | group _ hf =>
    have hcommas := all_commas (P := Lexeme.sound) rfl
      (List.forall_mem_map.2 fun f h => (hf f h).all_sound)
    simpa [Lexeme.sound] using hcommas

/-- The lexemes that spell a declaration. -/
inductive Declaration.Written : List Lexeme → Declaration → Prop
  | template (name : String) {entries : List (List Lexeme × Entry)} (hne : entries ≠ [])
      (he : ∀ e ∈ entries, e.2.Written e.1) :
      Written
        (.keyword .template :: .ident name :: .mark .assign :: .mark .openBracket ::
          commas (entries.map (·.1)) ++ [.mark .closeBracket, .mark .semicolon])
        (.template name (entries.map (·.2)))
  | function {ts : List Lexeme} {f : Function} (hf : f.Written ts) : Written ts (.function f)

theorem Declaration.Written.all_sound {ts : List Lexeme} {d : Declaration} (hw : d.Written ts) :
    ts.all Lexeme.sound := by
  cases hw with
  | template name _ he =>
    have hcommas := all_commas (P := Lexeme.sound) rfl
      (List.forall_mem_map.2 fun e h => (he e h).all_sound)
    simpa [Lexeme.sound] using hcommas
  | function hf => exact hf.all_sound

/-- The lexemes that spell a script: those of its declarations, one after the other. -/
inductive Program.Written : List Lexeme → Program → Prop
  | nil : Written [] []
  | cons {ts us : List Lexeme} {d : Declaration} {p : Program} (hd : d.Written ts)
      (hp : Written us p) : Written (ts ++ us) (d :: p)

/-- Declarations may follow those of a script. -/
theorem Program.Written.join {ls us : List Lexeme} {p q : Program} (hp : p.Written ls)
    (hq : q.Written us) : Program.Written (ls ++ us) (p ++ q) := by
  induction hp with
  | nil => exact hq
  | cons hd _ ih =>
    rw [List.append_assoc]
    exact .cons hd ih

/-- Nothing malformed spells a script. -/
theorem Program.Written.not_malformed {ls : List Lexeme} {p : Program} (hw : p.Written ls)
    (fault : LexFault) : .malformed fault ∉ ls := by
  induction hw with
  | nil => exact List.not_mem_nil
  | cons hd _ ih =>
    rw [List.mem_append, not_or]
    exact ⟨fun h => Bool.noConfusion (List.all_eq_true.1 hd.all_sound _ h), ih⟩

end Source

end ScriptFuzz
