import ScriptFuzz.Proofs.Faults.Reports
import ScriptFuzz.Proofs.Reading.Derivations

/-!
# Reports about scripts

The readers of scripts keep what is said of cursors, and what they report is right
(`ScriptTree.judged_parseFrom` for what is left of a script).

The proofs follow the recursion of the readers. A place that is handed to a reader is that of a
token which was taken before, and so stands in front of all malformed ones.
-/

namespace ScriptFuzz

open Cursor ParseResult

variable {tokens : List Token} {k : Known}

/-! ## Expressions -/

namespace Cursor

variable {c : Cursor}

theorem Clean.productOp? {op : ProductOp}
    {after : { after : Cursor // after.rest.length < c.rest.length }}
    (hc : c.Clean tokens) (h : c.productOp? = some (op, after)) : after.val.Clean tokens := by
  unfold Cursor.productOp? at h
  split at h
  · next hstar => cases h; exact hc.pass? hstar
  · next hslash => cases h; exact hc.pass? hslash
  · cases h

theorem Clean.sumOp? {op : SumOp}
    {after : { after : Cursor // after.rest.length < c.rest.length }}
    (hc : c.Clean tokens) (h : c.sumOp? = some (op, after)) : after.val.Clean tokens := by
  unfold Cursor.sumOp? at h
  split at h
  · next hplus => cases h; exact hc.pass? hplus
  · next hminus => cases h; exact hc.pass? hminus
  · cases h

end Cursor

mutual

theorem Factor.faithful_parse (scope : Scope) {c : Cursor} (hc : c.Clean tokens) :
    (Factor.parse k scope c).Faithful tokens k.fin fun _ => Clean tokens := by
  rw [Factor.parse]
  split
  · next d after ht => exact (faithful_take hc _).of_stopped ht
  next t after shorter ht =>
  have htook := (faithful_take hc _).of_parsed ht
  split
  · next x hx =>
    obtain ⟨hafter, hpos⟩ := htook.of_lexeme hx
    exact Factor.faithful_parseNamed scope x hpos shorter hafter
  · next m hm =>
    obtain ⟨hafter, hpos⟩ := htook.of_lexeme hm
    split
    · split
      · next d after₂ hi => exact (faithful_ident hafter).of_stopped hi
      next x pos after₂ shorter₂ hi =>
      obtain ⟨hafter₂, hpos₂⟩ := (faithful_ident hafter).of_parsed hi
      exact Factor.faithful_parseNamed scope x hpos₂ (by omega) hafter₂
    · refine ((faithful_integer hafter).behind _).bind ?_
      rintro ⟨v, pos⟩ after₂ s ⟨hafter₂, hpos₂⟩
      dsimp only
      split
      · exact faithful_ofCheck hafter₂ hpos₂
      · exact .semantic hpos₂ _
    · exact (Factor.faithful_parse scope hafter).behind _
    · exact htook.unexpected _
  · next v hv =>
    obtain ⟨hafter, hpos⟩ := htook.of_lexeme hv
    split
    · exact faithful_ofCheck hafter hpos
    · exact .semantic hpos _
  · next s hs =>
    obtain ⟨hafter, hpos⟩ := htook.of_lexeme hs
    exact faithful_ofCheck hafter hpos
  · next hr => exact .semantic (htook.of_lexeme hr).2 _
  · exact htook.unexpected _
  · exact htook.unexpected _
termination_by (c.rest.length, 0)

theorem Factor.faithful_parseNamed (scope : Scope) (x : String) {pos : Position}
    (hpos : Stands tokens pos) {c start : Cursor} (h : c.rest.length < start.rest.length)
    (hc : c.Clean tokens) :
    (Factor.parseNamed k scope x pos c start h).Faithful tokens k.fin fun _ => Clean tokens := by
  rw [Factor.parseNamed]
  split
  · exact faithful_ofCheck hc hpos
  next after shorter ho =>
  have hafter := hc.pass? ho
  split
  · next after₂ shorter₂ hcl => exact faithful_ofCheck (hafter.pass? hcl) hpos
  · refine (Sum.faithful_parseArguments scope [] (by omega) hafter).bind ?_
    rintro ⟨arguments, scope'⟩ after₂ s hafter₂
    exact faithful_ofCheck hafter₂ hpos
termination_by (c.rest.length, 1)

theorem Product.faithful_parse (scope : Scope) {c : Cursor} (hc : c.Clean tokens) :
    (Product.parse k scope c).Faithful tokens k.fin fun _ => Clean tokens := by
  rw [Product.parse]
  split
  · next d after hf => exact (Factor.faithful_parse scope hc).of_stopped hf
  next first scope' after shorter hf =>
  have hafter := (Factor.faithful_parse scope hc).of_parsed hf
  exact Product.faithful_parseMore scope' first [] shorter hafter
termination_by (c.rest.length, 2)

theorem Product.faithful_parseMore (scope : Scope) (first : Factor)
    (read : List (ProductOp × Factor)) {c start : Cursor}
    (h : c.rest.length < start.rest.length) (hc : c.Clean tokens) :
    (Product.parseMore k scope first read c start h).Faithful tokens k.fin
      fun _ => Clean tokens := by
  rw [Product.parseMore]
  split
  · exact hc
  next op after shorter ho =>
  have hafter := hc.productOp? ho
  split
  · next d after₂ hf => exact (Factor.faithful_parse scope hafter).of_stopped hf
  next factor scope' after₂ shorter₂ hf =>
  have hafter₂ := (Factor.faithful_parse scope hafter).of_parsed hf
  exact Product.faithful_parseMore scope' first ((op, factor) :: read) (by omega) hafter₂
termination_by (c.rest.length, 1)

theorem Sum.faithful_parse (scope : Scope) {c : Cursor} (hc : c.Clean tokens) :
    (Sum.parse k scope c).Faithful tokens k.fin fun _ => Clean tokens := by
  rw [Sum.parse]
  split
  · next d after hf => exact (Product.faithful_parse scope hc).of_stopped hf
  next first scope' after shorter hf =>
  have hafter := (Product.faithful_parse scope hc).of_parsed hf
  exact Sum.faithful_parseMore scope' first [] shorter hafter
termination_by (c.rest.length, 4)

theorem Sum.faithful_parseMore (scope : Scope) (first : Product)
    (read : List (SumOp × Product)) {c start : Cursor}
    (h : c.rest.length < start.rest.length) (hc : c.Clean tokens) :
    (Sum.parseMore k scope first read c start h).Faithful tokens k.fin fun _ => Clean tokens := by
  rw [Sum.parseMore]
  split
  · exact hc
  next op after shorter ho =>
  have hafter := hc.sumOp? ho
  split
  · next d after₂ hf => exact (Product.faithful_parse scope hafter).of_stopped hf
  next product scope' after₂ shorter₂ hf =>
  have hafter₂ := (Product.faithful_parse scope hafter).of_parsed hf
  exact Sum.faithful_parseMore scope' first ((op, product) :: read) (by omega) hafter₂
termination_by (c.rest.length, 3)

theorem Sum.faithful_parseArguments (scope : Scope) (read : List Sum) {c start : Cursor}
    (h : c.rest.length ≤ start.rest.length) (hc : c.Clean tokens) :
    (Sum.parseArguments k scope read c start h).Faithful tokens k.fin fun _ => Clean tokens := by
  rw [Sum.parseArguments]
  split
  · next d after ha => exact (Sum.faithful_parse scope hc).of_stopped ha
  next argument scope' after shorter ha =>
  have hafter := (Sum.faithful_parse scope hc).of_parsed ha
  split
  · next after₂ shorter₂ hcomma =>
    exact Sum.faithful_parseArguments scope' (argument :: read) (by omega) (hafter.pass? hcomma)
  · refine ((faithful_mark hafter _).weaken (by omega)).bind ?_
    intro _ after₂ s hafter₂
    exact hafter₂
termination_by (c.rest.length, 5)

end

/-! ## Statements and functions -/

namespace ScriptStatement

theorem faithful_parseValue {c start : Cursor} (scope : Scope)
    (h : c.rest.length ≤ start.rest.length) (hc : c.Clean tokens) :
    (parseValue k scope c h).Faithful tokens k.fin fun _ => Clean tokens := by
  refine ((Sum.faithful_parse scope hc).weaken h).bind ?_
  intro v after s hafter
  refine ((faithful_mark hafter _).behind s).bind ?_
  intro _ after₂ s₂ hafter₂
  exact hafter₂

theorem faithful_parseNamed {c start : Cursor} (scope : Scope) (x : String) {pos : Position}
    (hpos : Stands tokens pos) (h : c.rest.length < start.rest.length) (hc : c.Clean tokens) :
    (parseNamed k scope x pos c h).Faithful tokens k.fin fun _ => Clean tokens := by
  rw [parseNamed]
  split
  · next after shorter ha =>
    split
    · exact .semantic hpos _
    refine (faithful_parseValue scope _ (hc.pass? ha)).bind ?_
    rintro ⟨value, scope'⟩ after₂ s hafter₂
    exact hafter₂
  · refine (Factor.faithful_parseNamed scope x hpos h hc).bind ?_
    rintro ⟨factor, scope₁⟩ after₁ s₁ h₁
    refine (Product.faithful_parseMore scope₁ factor [] s₁ h₁).bind ?_
    rintro ⟨product, scope₂⟩ after₂ s₂ h₂
    refine (Sum.faithful_parseMore scope₂ product [] s₂ h₂).bind ?_
    rintro ⟨value, scope₃⟩ after₃ s₃ h₃
    refine ((faithful_mark h₃ _).behind s₃).bind ?_
    intro _ after₄ s₄ h₄
    exact h₄

theorem faithful_parseDeclare {c start : Cursor} (scope : Scope) {pos : Position}
    (hpos : Stands tokens pos) (h : c.rest.length < start.rest.length) (hc : c.Clean tokens) :
    (parseDeclare k scope pos c h).Faithful tokens k.fin fun _ => Clean tokens := by
  refine ((faithful_ident hc).behind h).bind ?_
  rintro ⟨x, _⟩ after₁ s₁ ⟨h₁, -⟩
  refine ((faithful_mark h₁ _).behind s₁).bind ?_
  intro _ after₂ s₂ h₂
  refine (faithful_parseValue scope _ h₂).bind ?_
  rintro ⟨value, scope'⟩ after₃ s₃ h₃
  dsimp only
  split
  · exact h₃
  · exact .semantic hpos _

theorem faithful_parse {c : Cursor} (scope : Scope) (hc : c.Clean tokens) :
    (parse k scope c).Faithful tokens k.fin fun _ => Clean tokens := by
  refine (faithful_take hc _).bind ?_
  intro t after s htook
  split
  · next hv =>
    obtain ⟨hafter, hpos⟩ := htook.of_lexeme hv
    split
    · next after₂ s₂ hd => exact faithful_parseDeclare scope hpos _ (hafter.pass? hd)
    · exact faithful_parseDeclare scope hpos _ hafter
  · next hr =>
    refine (faithful_parseValue scope _ (htook.of_lexeme hr).1).bind ?_
    rintro ⟨value, scope'⟩ after₂ s₂ hafter₂
    exact hafter₂
  · next hd =>
    refine ((faithful_ident (htook.of_lexeme hd).1).behind s).bind ?_
    rintro ⟨x, pos⟩ after₂ s₂ ⟨hafter₂, hpos₂⟩
    exact faithful_parseNamed scope x hpos₂ _ hafter₂
  · next x hx =>
    obtain ⟨hafter, hpos⟩ := htook.of_lexeme hx
    exact faithful_parseNamed scope x hpos _ hafter
  · exact htook.unexpected _

theorem faithful_parseBody (scope : Scope) (read : List ScriptStatement) {c start : Cursor}
    (h : c.rest.length ≤ start.rest.length) (hc : c.Clean tokens) :
    (parseBody k scope read c start h).Faithful tokens k.fin fun _ => Clean tokens := by
  rw [parseBody]
  split
  · next after s hclose => exact hc.pass? hclose
  split
  · next d after hs => exact (faithful_parse scope hc).of_stopped hs
  next statement scope' after s hs =>
  have hafter := (faithful_parse (k := k) scope hc).of_parsed hs
  exact faithful_parseBody scope' (statement :: read) (by omega) hafter
termination_by c.rest.length

end ScriptStatement

namespace Function

theorem faithful_parseParams (read : List String) {c start : Cursor}
    (h : c.rest.length ≤ start.rest.length) (hc : c.Clean tokens) :
    (parseParams k read c start h).Faithful tokens k.fin fun _ => Clean tokens := by
  rw [parseParams]
  split
  · next d after hx => exact (faithful_ident hc).of_stopped hx
  next x pos after s hx =>
  obtain ⟨hafter, hpos⟩ := (faithful_ident hc).of_parsed hx
  split
  · exact .semantic hpos _
  split
  · next after₂ s₂ hcomma =>
    exact faithful_parseParams (x :: read) (by omega) (hafter.pass? hcomma)
  · refine ((faithful_mark hafter _).weaken (by omega)).bind ?_
    intro _ after₂ s₂ hafter₂
    exact hafter₂
termination_by c.rest.length

theorem faithful_parse {c : Cursor} (hc : c.Clean tokens) :
    (parse k c).Faithful tokens k.fin fun _ => Clean tokens := by
  refine (faithful_ident hc).bind ?_
  rintro ⟨x, pos⟩ after s ⟨hafter, hpos⟩
  dsimp only
  split
  · exact .semantic hpos _
  refine ((faithful_mark hafter _).behind s).bind ?_
  intro _ after₁ s₁ h₁
  refine ParseResult.Faithful.bind (Q := fun _ => Clean tokens) ?_ ?_
  · split
    · next after₂ s₂ hclose => exact h₁.pass? hclose
    · exact faithful_parseParams [] _ h₁
  intro params after₂ s₂ h₂
  refine ((faithful_mark h₂ _).behind s₂).bind ?_
  intro _ after₃ s₃ h₃
  refine (ScriptStatement.faithful_parseBody _ [] _ h₃).bind ?_
  rintro ⟨body, scope⟩ after₄ s₄ h₄
  exact h₄

end Function

/-! ## Templates -/

namespace TemplateBuilder

variable {fin : Position} {c start : Cursor}

theorem faithful_parseOptional {α : Type} (h : c.rest.length < start.rest.length) (default : α)
    {argument : (c : Cursor) → ParseResult α c} (hc : c.Clean tokens)
    (hargument : ∀ c : Cursor, c.Clean tokens →
      (argument c).Faithful tokens fin fun _ => Clean tokens) :
    (parseOptional fin c h default argument).Faithful tokens fin fun _ => Clean tokens := by
  rw [parseOptional]
  split
  · exact hc
  next after shorter hopen =>
  refine (((hargument after (hc.pass? hopen)).behind shorter).behind h).bind ?_
  intro value after₂ s₂ h₂
  refine ((faithful_mark h₂ _).behind s₂).bind ?_
  intro _ after₃ s₃ h₃
  exact h₃

theorem faithful_parseScalar (b : TemplateBuilder) (width : Width) (fuzz : Bool)
    (h : c.rest.length < start.rest.length) (hc : c.Clean tokens) :
    (parseScalar fin b width fuzz c h).Faithful tokens fin fun _ => Clean tokens := by
  refine (faithful_parseOptional h 0 hc ?_).bind ?_
  · intro c hc
    refine (faithful_integer hc).bind ?_
    rintro ⟨value, pos⟩ after s ⟨hafter, hpos⟩
    dsimp only
    split
    · exact hafter
    · exact .semantic hpos _
  · intro value after s hafter
    exact hafter

theorem faithful_parseSeed (hc : c.Clean tokens) :
    (parseSeed fin c).Faithful tokens fin fun _ => Clean tokens := by
  refine (faithful_take hc _).bind ?_
  intro t after s htook
  split
  · next text ht => exact (htook.of_lexeme ht).1
  · exact htook.unexpected _

theorem faithful_parseString (b : TemplateBuilder) (form : StringForm) (fuzz : Bool)
    (h : c.rest.length < start.rest.length) (hc : c.Clean tokens) :
    (parseString fin b form fuzz c h).Faithful tokens fin fun _ => Clean tokens := by
  refine (faithful_parseOptional h none hc fun _ => faithful_parseSeed).bind ?_
  intro seed after s hafter
  exact hafter

theorem faithful_parseElement (hc : c.Clean tokens) :
    (parseElement fin c).Faithful tokens fin fun _ => Clean tokens := by
  refine (faithful_take hc _).bind ?_
  intro t after s htook
  split
  · next keyword hk =>
    split
    · exact (htook.of_lexeme hk).1
    · exact htook.unexpected _
  · exact htook.unexpected _

theorem faithful_parseBounds (fuzz : Bool) (h : c.rest.length ≤ start.rest.length)
    (hc : c.Clean tokens) :
    (parseBounds fin fuzz c h).Faithful tokens fin fun r after =>
      after.Clean tokens ∧ Stands tokens r.2.2 := by
  refine ((faithful_integer hc).weaken h).bind ?_
  rintro ⟨lower, pos⟩ after s ⟨hafter, hpos⟩
  dsimp only
  split
  · exact ⟨hafter, hpos⟩
  next after₂ s₂ hminus =>
  refine (((faithful_integer (hafter.pass? hminus)).behind s₂).behind s).bind ?_
  rintro ⟨upper, upperPos⟩ after₃ s₃ ⟨h₃, hupper⟩
  dsimp only
  split
  · exact ⟨h₃, hpos⟩
  · exact .semantic hupper _

theorem faithful_parseArray (b : TemplateBuilder) (fuzz : Bool) {keywordPos : Position}
    (hkeyword : Stands tokens keywordPos) (h : c.rest.length < start.rest.length)
    (hc : c.Clean tokens) :
    (parseArray fin b fuzz keywordPos c h).Faithful tokens fin fun _ => Clean tokens := by
  refine ((faithful_mark hc _).behind h).bind ?_
  intro _ after₁ s₁ h₁
  refine ((faithful_parseElement h₁).behind s₁).bind ?_
  intro width after₂ s₂ h₂
  refine ((faithful_mark h₂ _).behind s₂).bind ?_
  intro _ after₃ s₃ h₃
  refine ((faithful_mark h₃ _).behind s₃).bind ?_
  intro _ after₄ s₄ h₄
  refine (faithful_parseBounds fuzz _ h₄).bind ?_
  rintro ⟨lower, upper, pos⟩ after₅ s₅ ⟨h₅, hpos⟩
  refine ((faithful_mark h₅ _).behind s₅).bind ?_
  intro _ after₆ s₆ h₆
  dsimp only
  split
  · exact .semantic hpos _
  split
  · exact h₆
  split
  · exact h₆
  · exact .semantic hkeyword _

theorem faithful_pushReference (templates : List (String × Template)) (b : TemplateBuilder)
    (x : String) {pos : Position} (hpos : Stands tokens pos)
    (h : c.rest.length < start.rest.length) (hc : c.Clean tokens) :
    (pushReference templates b x pos c h).Faithful tokens fin fun _ => Clean tokens := by
  rw [pushReference]
  split
  · exact hc
  · exact .semantic hpos _

mutual

theorem faithful_parseItem (b : TemplateBuilder) (fuzz : Bool) {c : Cursor}
    (hc : c.Clean tokens) :
    (parseItem k b fuzz c).Faithful tokens k.fin fun _ => Clean tokens := by
  rw [parseItem]
  split
  · next d after ht => exact (faithful_take hc _).of_stopped ht
  next t after shorter ht =>
  have htook := (faithful_take hc _).of_parsed ht
  split
  · next hl => exact faithful_parseString b _ fuzz shorter (htook.of_lexeme hl).1
  · next hl => exact faithful_parseString b _ fuzz shorter (htook.of_lexeme hl).1
  · next hl =>
    obtain ⟨hafter, hpos⟩ := htook.of_lexeme hl
    exact faithful_parseArray b fuzz hpos shorter hafter
  · next hl => exact .semantic (htook.of_lexeme hl).2 _
  · next keyword _ _ _ _ hl =>
    split
    · exact faithful_parseScalar b _ fuzz shorter (htook.of_lexeme hl).1
    · exact htook.unexpected _
  · next hl =>
    obtain ⟨hafter, hpos⟩ := htook.of_lexeme hl
    split
    · exact .semantic hpos _
    refine (faithful_parseItems b true _ hafter).bind ?_
    intro b' after₂ s₂ h₂
    refine ((faithful_mark h₂ _).behind s₂).bind ?_
    intro _ after₃ s₃ h₃
    exact h₃
  · next hl =>
    refine ((faithful_ident (htook.of_lexeme hl).1).behind shorter).bind ?_
    rintro ⟨x, pos⟩ after₂ s₂ ⟨h₂, hpos⟩
    exact faithful_pushReference k.tree.templates b x hpos s₂ h₂
  · next x hl =>
    obtain ⟨hafter, hpos⟩ := htook.of_lexeme hl
    exact faithful_pushReference k.tree.templates b x hpos shorter hafter
  · exact htook.unexpected _
termination_by (c.rest.length, 0)

theorem faithful_parseItems (b : TemplateBuilder) (fuzz : Bool) {c start : Cursor}
    (h : c.rest.length ≤ start.rest.length) (hc : c.Clean tokens) :
    (parseItems k b fuzz c start h).Faithful tokens k.fin fun _ => Clean tokens := by
  rw [parseItems]
  split
  · next d after hi => exact (faithful_parseItem b fuzz hc).of_stopped hi
  next b' after shorter hi =>
  have hafter := (faithful_parseItem b fuzz hc).of_parsed hi
  split
  · next after₂ s₂ hcomma => exact faithful_parseItems b' fuzz (by omega) (hafter.pass? hcomma)
  · exact hafter
termination_by (c.rest.length, 1)

end

theorem faithful_parse (hc : c.Clean tokens) :
    (parse k c).Faithful tokens k.fin fun _ => Clean tokens := by
  refine (faithful_ident hc).bind ?_
  rintro ⟨x, pos⟩ after s ⟨hafter, hpos⟩
  dsimp only
  split
  · exact .semantic hpos _
  refine ((faithful_mark hafter _).behind s).bind ?_
  intro _ after₁ s₁ h₁
  refine ((faithful_mark h₁ _).behind s₁).bind ?_
  intro _ after₂ s₂ h₂
  refine (faithful_parseItems _ false _ h₂).bind ?_
  intro b after₃ s₃ h₃
  refine ((faithful_mark h₃ _).behind s₃).bind ?_
  intro _ after₄ s₄ h₄
  refine ((faithful_mark h₄ _).behind s₄).bind ?_
  intro _ after₅ s₅ h₅
  exact h₅

end TemplateBuilder

/-! ## Scripts -/

namespace ScriptTree

/-- The declarations that are left are read, or a right report is given. -/
theorem judged_parseFrom (fin : Position) (tree : ScriptTree) {rest : List Token}
    (hc : Clean tokens { rest }) :
    Judged tokens fin (parseFrom fin tree rest) := by
  match rest with
  | [] =>
    obtain ⟨taken, rfl, htaken⟩ := hc
    rw [parseFrom, List.append_nil]
    exact htaken
  | t :: rest =>
    have htook : Took tokens t { rest } := hc.took rfl
    rw [parseFrom]
    split
    · next hl =>
      have hparse := TemplateBuilder.faithful_parse (k := ⟨fin, tree⟩) (htook.of_lexeme hl).1
      split
      · next d after hd => exact hparse.of_stopped hd
      · next x b after shorter hb => exact judged_parseFrom fin _ ((hparse.of_parsed hb).congr rfl)
    · next hl =>
      have hparse := Function.faithful_parse (k := ⟨fin, tree⟩) (htook.of_lexeme hl).1
      split
      · next d after hd => exact hparse.of_stopped hd
      · next f after shorter hf => exact judged_parseFrom fin _ ((hparse.of_parsed hf).congr rfl)
    · exact htook.unexpected _
termination_by rest.length
decreasing_by all_goals exact Nat.lt_succ_of_lt ‹_›

end ScriptTree

end ScriptFuzz
