import ScriptFuzz.Proofs.Language.Code
import ScriptFuzz.Proofs.Language.Rules
import ScriptFuzz.Proofs.Reading.Result

/-!
# Scopes and the names in force

While a function is read, a `Scope` says what its names stand for and counts what it has used. This
module relates the scope of a reader to the names in force at the place that it has reached
(`Scope.Sees`), and says when the checks of a scope pass.

- `Scope.Room`, `Scope.spend`: the room that is left in the pools, and what is left of it behind an
  expression.
- `Scope.passes_int`, `passes_text`, `passes_use`, `passes_call`: the checks of single factors.
-/

namespace ScriptFuzz

open Source ParseResult

/-- The declarations that have been read are those in force. -/
structure ScriptTree.Declares (tree : ScriptTree) (names : Naming) : Prop where
  functions : names.functions = tree.functions.toList.map fun f => (f.name, f.params.length)
  templates : ∀ x, x ∈ names.templates ↔ (tree.templates.lookup x).isSome

namespace Scope

/-- The scope knows what the names in force are, and has not run out of numbers. -/
structure Sees (tree : ScriptTree) (scope : Scope) (names : Naming) : Prop
    extends tree.Declares names where
  params : scope.params = names.params
  slots : scope.slots = names.locals.length
  locals : ∀ x, scope.locals.lookup x = Naming.slot? names.locals x
  bounded : scope.slots ≤ limit
  ints : scope.ints ≤ limit
  texts : scope.texts ≤ limit

/-- Whether some more integers and texts can be used. -/
def Room (scope : Scope) (ints texts : Nat) : Prop :=
  scope.ints + ints ≤ limit ∧ scope.texts + texts ≤ limit

/-- The scope behind the use of some integers and texts. -/
def spend (scope : Scope) (ints texts : Nat) : Scope :=
  { scope with ints := scope.ints + ints, texts := scope.texts + texts }

@[simp] theorem spend_zero (scope : Scope) : scope.spend 0 0 = scope := rfl

@[simp] theorem spend_spend (scope : Scope) (i t i' t' : Nat) :
    (scope.spend i t).spend i' t' = scope.spend (i + i') (t + t') := by
  simp only [spend, Nat.add_assoc]

theorem room_add {scope : Scope} {i t i' t' : Nat} :
    scope.Room (i + i') (t + t') ↔ scope.Room i t ∧ (scope.spend i t).Room i' t' := by
  simp only [Room, spend]
  omega

variable {tree : ScriptTree} {scope : Scope} {names : Naming}

namespace Sees

/-- At the start of a function nothing is used. -/
theorem enter (h : tree.Declares names) (params : List String) :
    ({ params } : Scope).Sees tree (names.enter params) :=
  { functions := h.functions, templates := h.templates, params := rfl, slots := rfl
    locals := fun _ => rfl, bounded := Nat.zero_le _, ints := Nat.zero_le _
    texts := Nat.zero_le _ }

theorem room_zero (h : scope.Sees tree names) : scope.Room 0 0 := ⟨h.ints, h.texts⟩

theorem spend (h : scope.Sees tree names) {i t : Nat} (hr : scope.Room i t) :
    (scope.spend i t).Sees tree names :=
  { h with ints := hr.1, texts := hr.2 }

/-- Behind the declaration of a variable the scope knows the variable. -/
theorem declare (h : scope.Sees tree names) (x : String) (hlt : scope.slots < limit) :
    (scope.declare x).Sees tree (names.declare x) where
  functions := h.functions
  templates := h.templates
  params := h.params
  slots := by rw [Scope.declare, Naming.declare, List.length_cons, h.slots]
  locals y := by
    rw [Scope.declare, Naming.declare, Naming.slot?, List.lookup_cons]
    by_cases hy : y = x
    · rw [if_pos hy, hy, beq_self_eq_true, h.slots]
    · -- the earlier variables that the new one hides do not have this name
      rw [if_neg hy, beq_false_of_ne hy, ← h.locals]
      generalize scope.locals = ls
      induction ls with
      | nil => rfl
      | cons l ls ih =>
        obtain ⟨z, i⟩ := l
        by_cases hz : z = x
        · subst hz
          simpa [List.lookup_cons, beq_false_of_ne hy] using ih
        · by_cases hyz : y = z
          · subst hyz
            simp [hz]
          · simpa [hz, List.lookup_cons, beq_false_of_ne hyz] using ih
  bounded := hlt
  ints := h.ints
  texts := h.texts

theorem resolve?_eq (h : scope.Sees tree names) (x : String) :
    scope.resolve? tree x = names.resolve? x := by
  rw [Scope.resolve?, Naming.resolve?, h.locals, h.params]
  cases Naming.slot? names.locals x with
  | some i => rfl
  | none =>
    cases names.params.idxOf? x with
    | some i => rfl
    | none =>
      by_cases hx : x ∈ names.templates
      · obtain ⟨t, ht⟩ := Option.isSome_iff_exists.1 ((h.templates x).1 hx)
        simp only [ht, Option.map_some, if_pos hx]
      · have ht := Option.not_isSome_iff_eq_none.1 (mt (h.templates x).2 hx)
        simp only [ht, Option.map_none, if_neg hx]

theorem findIdx?_eq (h : scope.Sees tree names) (x : String) :
    names.functions.findIdx? (·.1 == x) = tree.functions.findIdx? (·.name == x) := by
  rw [h.functions, List.findIdx?_map, ← List.findIdx?_toArray, Array.toArray_toList]
  rfl

theorem arity_eq (h : scope.Sees tree names) (i : Nat) :
    (names.functions[i]?).map (·.2) = tree.functions[i]?.map (·.params.length) := by
  rw [h.functions, List.getElem?_map, Option.map_map, Array.getElem?_toList]
  rfl

end Sees

/-! ## The checks of factors -/

/-- Whether an expression keeps the rules and there is room for what it uses. -/
def Fits (scope : Scope) (names : Naming) (e : Term) : Prop :=
  e.Valid names ∧ scope.Room e.ints (e.texts names)

/-- The same of expressions one after the other. -/
def FitsAll (scope : Scope) (names : Naming) (es : List Term) : Prop :=
  (∀ e ∈ es, e.Valid names) ∧
    scope.Room (Term.intsAll es) (Term.textsAll names es)

/-- There is always room for no expressions. -/
theorem Sees.fitsAll_nil (h : scope.Sees tree names) : scope.FitsAll names [] := by
  rw [FitsAll, Term.intsAll, Term.textsAll]
  exact ⟨fun e he => absurd he List.not_mem_nil, h.room_zero⟩

theorem fitsAll_cons {e : Term} {es : List Term} :
    scope.FitsAll names (e :: es) ↔
      scope.Fits names e ∧ (scope.spend e.ints (e.texts names)).FitsAll names es := by
  simp only [FitsAll, Fits, List.forall_mem_cons, Term.intsAll, Term.textsAll, room_add]
  exact and_and_and_comm

/-- The texts of a call are those of its arguments, and the name itself if it is the host's. -/
theorem fits_call {f : String} {es : List Term} :
    scope.Fits names (.call f es) ↔
      scope.FitsAll names es ∧ names.Takes f es.length ∧
        (scope.spend (Term.intsAll es) (Term.textsAll names es)).Room 0
          (if names.callee f = .host then 1 else 0) := by
  simp only [FitsAll, Fits, Term.Valid, Term.texts]
  rw [and_and_and_comm, ← room_add, Nat.add_zero, Term.ints]

/-- What an operation uses is what its operands use, one after the other. -/
theorem fits_arith {op : Arith} {l r : Term} :
    scope.Fits names (.arith op l r) ↔
      scope.Fits names l ∧ (scope.spend l.ints (l.texts names)).Fits names r := by
  simp only [Fits, Term.Valid, Term.ints, Term.texts, room_add]
  exact and_and_and_comm

theorem passes_int (h : scope.Sees tree names) (v : Int64) :
    Passes (scope.Room 1 0) (.int v, scope.spend 1 0) (scope.int v) := by
  rw [Scope.int]
  split
  · next hlt => exact .inl ⟨⟨hlt, h.texts⟩, rfl⟩
  · next hlt => exact .inr ⟨fun hr => hlt hr.1, _, rfl⟩

theorem passes_text (h : scope.Sees tree names) (s : String) :
    Passes (scope.Room 0 1) (.text s, scope.spend 0 1) (scope.text s) := by
  rw [Scope.text]
  split
  · next hlt => exact .inl ⟨⟨h.ints, hlt⟩, rfl⟩
  · next hlt => exact .inr ⟨fun hr => hlt hr.2, _, rfl⟩

/-- A name is used as what it stands for. -/
theorem passes_use (h : scope.Sees tree names) (x : String) :
    Passes (scope.Fits names (.name x))
      (.name x ((names.resolve? x).getD .template), scope.spend 0 ((Term.name x).texts names))
      (scope.use tree x) := by
  have hr := h.resolve?_eq x
  simp only [Scope.use, Fits, Term.Valid, Naming.Offers, Term.ints, Term.texts, hr]
  cases names.resolve? x with
  | none => exact .inr ⟨fun hv => hv.1, _, rfl⟩
  | some named =>
    cases named with
    | slot i => exact .inl ⟨⟨trivial, h.room_zero⟩, rfl⟩
    | argument i =>
      by_cases hi : i < limit
      · exact .inl ⟨⟨hi, h.room_zero⟩, if_pos hi⟩
      · exact .inr ⟨fun hv => hi hv.1, _, if_neg hi⟩
    | template =>
      by_cases ht : scope.texts < limit
      · exact .inl ⟨⟨trivial, h.ints, ht⟩, if_pos ht⟩
      · exact .inr ⟨fun hv => ht hv.2.2, _, if_neg ht⟩

/-- A name is called as what it stands for, once the arguments have been read. -/
theorem passes_call (h : scope.Sees tree names) (f : String) (arguments : List Sum) :
    Passes
      (names.Takes f arguments.length ∧ scope.Room 0 (if names.callee f = .host then 1 else 0))
      (.call f (names.callee f) arguments,
        scope.spend 0 (if names.callee f = .host then 1 else 0))
      (scope.call tree f arguments) := by
  rw [Scope.call, Naming.Takes]
  by_cases hf : f = "sizeof"
  · have hcallee : names.callee f = .sizeof := by rw [Naming.callee, if_pos hf]
    simp only [hcallee, if_pos hf]
    by_cases hn : arguments.length = 1
    · exact .inl ⟨⟨hn, h.room_zero⟩, if_pos hn⟩
    · exact .inr ⟨fun hv => hn hv.1, _, if_neg hn⟩
  have hfind := h.findIdx?_eq f
  simp only [if_neg hf]
  cases hi : tree.functions.findIdx? (·.name == f) with
  | some i =>
    have hcallee : names.callee f = .function i := by
      rw [Naming.callee, if_neg hf, hfind, hi]
    have hlt : i < tree.functions.size := (Array.findIdx?_eq_some_iff_getElem.1 hi).1
    have harity := h.arity_eq i
    rw [Array.getElem?_eq_getElem hlt] at harity
    simp only [hcallee, harity, Array.getElem?_eq_getElem hlt, Option.map_some, Option.getD_some]
    by_cases hn : tree.functions[i].params.length = arguments.length
    · rw [if_neg (Decidable.not_not.2 hn)]
      by_cases hl : i < limit
      · exact .inl ⟨⟨⟨congrArg some hn, hl⟩, h.room_zero⟩, if_pos hl⟩
      · exact .inr ⟨fun hv => hl hv.1.2, _, if_neg hl⟩
    · exact .inr ⟨fun hv => hn (Option.some.inj hv.1.1), _, if_pos hn⟩
  | none =>
    have hcallee : names.callee f = .host := by
      rw [Naming.callee, if_neg hf, hfind, hi]
    simp only [hcallee]
    by_cases hn : maxHostArguments < arguments.length
    · exact .inr ⟨fun hv => Nat.not_le.2 hn hv.1, _, if_pos hn⟩
    rw [if_neg hn]
    by_cases ht : scope.texts < limit
    · exact .inl ⟨⟨Nat.not_lt.1 hn, h.ints, ht⟩, if_pos ht⟩
    · exact .inr ⟨fun hv => ht hv.2.2, _, if_neg ht⟩

end Scope

end ScriptFuzz
