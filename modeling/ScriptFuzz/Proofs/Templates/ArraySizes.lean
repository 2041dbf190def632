import ScriptFuzz.Channel.Layout
import ScriptFuzz.Proofs.Campaign.States
import ScriptFuzz.Proofs.Reading.Extension
import ScriptFuzz.Proofs.Templates.Origins

/-!
# The sizes of arrays

Sizes are counted in 64-bit words. Outside braces, a script with an array that is larger is refused;
an array in braces, a vector of an expression and a field of a layout may be of any size, and then
have as many bytes as are left of the size in 64 bits.

- `Extent`: the elements of an array, and the sizes that it declares.
- `Extent.Stands`: what an array is among the items of a template.
- `Source.Entry.Declares`: the arrays of a script.
- `Expr.exists_lower_iff`, `Expr.stands_lower`: which expressions become templates, and where their
  vectors stand then.
- `Layout.exists_scheduleExpr`, `Layout.scheduled_expr`: which expressions become layouts, and what
  their vectors are then.
- `arraySizes`: the sizes on all paths.
-/

namespace ScriptFuzz

open Source

/-! ## Declared sizes -/

/-- The elements of an array. -/
structure Extent where
  /-- The width of an element. -/
  width : Width
  /-- The least number of elements. -/
  lower : Nat
  /-- The greatest number of elements. -/
  upper : Nat

namespace Extent

/-- The size in bytes with `n` elements. -/
def size (x : Extent) (n : Nat) : Nat := n * x.width.bytes

/-- All sizes that are declared can be counted in 64-bit words. -/
def Fits (x : Extent) : Prop := ∀ n, x.lower ≤ n → n ≤ x.upper → x.size n < 2 ^ (64 : Nat)

/-- A mutator goes through the sizes of an array. It writes as many bytes as are left of each size
in 64 bits. -/
def Walked (x : Extent) (m : Mutator) : Prop :=
  ∀ order n, x.lower ≤ n → n ≤ x.upper →
    (m.after (n - x.lower)).bytes order = List.replicate (x.size n % 2 ^ (64 : Nat)) LengthWalk.fill

/-- An array stands among items. If it is fuzzed then it is a mutator that goes through its sizes,
and else it is zeros, as many as are left of its size in 64 bits. -/
inductive Stands (x : Extent) (items : List Item) (states : Array Mutator) : Bool → Prop
  | plain (h : .buffer (List.replicate (x.size x.lower % 2 ^ (64 : Nat)) 0) ∈ items) :
      Stands x items states false
  | fuzzed {id : MutatorId} {m : Mutator} (h : .mutator id ∈ items)
      (hstate : states[id]? = some m) (hwalked : x.Walked m) : Stands x items states true

variable {x : Extent} {m : Mutator}

theorem walked_ofLengths (x : Extent) :
    x.Walked (.ofLengths x.width.bytes x.lower x.upper) := by
  intro order n hlower hupper
  have hstart : x.lower + (n - x.lower) ≤ (LengthWalk.start x.width.bytes x.lower x.upper).upper :=
    (Nat.add_sub_of_le hlower).symm ▸ Nat.le_trans hupper (Nat.le_max_left _ _)
  rw [Mutator.ofLengths, Mutator.after_lengths rfl rfl hstart]
  show List.replicate ((x.lower + (n - x.lower)) * x.width.bytes % 2 ^ (64 : Nat)) _ = _
  rw [Nat.add_sub_of_le hlower]
  rfl

/-- The bytes that are written are as many as are declared, just if the sizes fit. -/
theorem Walked.fits_iff (h : x.Walked m) :
    x.Fits ↔ ∀ order n, x.lower ≤ n → n ≤ x.upper →
      ((m.after (n - x.lower)).bytes order).length = x.size n := by
  constructor
  · intro hfits order n hlower hupper
    rw [h order n hlower hupper, List.length_replicate,
      Nat.mod_eq_of_lt (hfits n hlower hupper)]
  · intro hexact n hlower hupper
    have hlength := hexact .bigEndian n hlower hupper
    rw [h .bigEndian n hlower hupper, List.length_replicate] at hlength
    rw [← hlength]
    exact Nat.mod_lt _ (by decide)

variable {fuzz : Bool}

/-- An array stays where it is when something is added. -/
theorem Stands.mono {items items' : List Item} {states states' : Array Mutator}
    (h : x.Stands items states fuzz) (hitems : items ⊆ items')
    (hstates : states.toList <+: states'.toList) : x.Stands items' states' fuzz := by
  cases h with
  | plain h => exact .plain (hitems h)
  | @fuzzed id m h hstate hwalked =>
    refine .fuzzed (hitems h) ?_ hwalked
    obtain ⟨added, hadded⟩ := hstates
    rw [← Array.getElem?_toList] at hstate ⊢
    rw [← hadded, List.getElem?_append_left (List.getElem?_eq_some_iff.1 hstate).1, hstate]

theorem stands_push (x : Extent) (b : TemplateBuilder) :
    x.Stands (b.push (.buffer (List.replicate (x.size x.lower % 2 ^ (64 : Nat)) 0))).items.toList
      b.pool.states false := by
  refine .plain ?_
  rw [TemplateBuilder.push, Array.toList_push]
  exact List.mem_append_right _ (List.mem_singleton_self _)

theorem stands_pushMutator (x : Extent) (b : TemplateBuilder) :
    x.Stands (b.pushMutator (.ofLengths x.width.bytes x.lower x.upper)).2.items.toList
      (b.pushMutator (.ofLengths x.width.bytes x.lower x.upper)).2.pool.states true := by
  refine .fuzzed (?_ : Item.mutator b.pool.states.size ∈ _) Array.getElem?_push_size
    x.walked_ofLengths
  rw [TemplateBuilder.pushMutator, Pool.add, Array.toList_push]
  exact List.mem_append_right _ (List.mem_singleton_self _)

/-- What one step of many puts somewhere stands there in the end. -/
theorem stands_foldl {α : Type} {step : TemplateBuilder → α → TemplateBuilder}
    (hgrows : ∀ (b : TemplateBuilder) (a : α), b.Grows (step b a)) {a : α} {as : List α}
    (ha : a ∈ as) (hput : ∀ b, x.Stands (step b a).items.toList (step b a).pool.states fuzz)
    (b : TemplateBuilder) :
    x.Stands (as.foldl step b).items.toList (as.foldl step b).pool.states fuzz := by
  obtain ⟨before, behind, rfl⟩ := List.append_of_mem ha
  rw [List.foldl_append, List.foldl_cons]
  have hbehind := TemplateBuilder.grows_foldl hgrows (step (before.foldl step b) a) behind
  exact (hput _).mono hbehind.items.subset hbehind.states

end Extent

/-! ## Scripts -/

namespace Source

/-- The elements of an array in a template. -/
def Field.extent? : Field → Option Extent
  | .array w lower upper => some ⟨w, lower.toNat, (upper.getD lower).toNat⟩
  | _ => none

/-- The arrays between two commas of a template, fuzzed if they are in braces. -/
inductive Entry.Declares : Entry → Bool → Extent → Prop
  | field {f : Field} {x : Extent} (h : f.extent? = some x) : Declares (.field f) false x
  | group {fs : List Field} {f : Field} {x : Extent} (hf : f ∈ fs) (h : f.extent? = some x) :
      Declares (.group fs) true x

variable {names : Naming} {known : List (String × Template)} {x : Extent} {fuzz : Bool}

theorem Field.exists_array {f : Field} (hx : f.extent? = some x) :
    ∃ w lower upper, f = .array w lower upper ∧ x = ⟨w, lower.toNat, (upper.getD lower).toNat⟩ := by
  cases f with
  | array w lower upper =>
    cases hx
    exact ⟨w, lower, upper, rfl, rfl⟩
  | _ => cases hx

/-- The size of an array outside braces fits. -/
theorem Field.fits_of_valid {f : Field} (hv : f.Valid names false) (hx : f.extent? = some x) :
    x.Fits := by
  obtain ⟨w, lower, upper, rfl, rfl⟩ := f.exists_array hx
  obtain ⟨hupper, hsize⟩ := hv
  have hnone : upper = none := by
    cases upper with
    | none => rfl
    | some n => cases (hupper n rfl).1
  subst hnone
  intro n _ hn
  have hle : n * w.bytes ≤ lower.toNat * w.bytes := Nat.mul_le_mul_right _ hn
  exact Nat.lt_of_le_of_lt hle (hsize.resolve_left (by decide))

theorem Field.stands_build {f : Field} (hv : f.Valid names fuzz) (hx : f.extent? = some x)
    (b : TemplateBuilder) :
    x.Stands (f.build known fuzz b).items.toList (f.build known fuzz b).pool.states fuzz := by
  cases fuzz with
  | true =>
    obtain ⟨w, lower, upper, rfl, rfl⟩ := f.exists_array hx
    exact Extent.stands_pushMutator _ b
  | false =>
    have hfits := f.fits_of_valid hv hx
    obtain ⟨w, lower, upper, rfl, rfl⟩ := f.exists_array hx
    -- outside braces there is no range, so the least number of elements is the only one
    have hupper : lower.toNat ≤ (upper.getD lower).toNat := by
      cases upper with
      | none => exact Nat.le_refl _
      | some n => exact absurd (hv.1 n rfl).1 (by decide)
    have hstands := Extent.stands_push ⟨w, lower.toNat, (upper.getD lower).toNat⟩ b
    rw [Nat.mod_eq_of_lt (hfits _ (Nat.le_refl _) hupper)] at hstands
    exact hstands

theorem Entry.stands_build {e : Entry} (hv : e.Valid names) (hx : e.Declares fuzz x)
    (b : TemplateBuilder) :
    x.Stands (e.build known b).items.toList (e.build known b).pool.states fuzz := by
  cases hx with
  | field hx => exact Field.stands_build hv hx b
  | group hf hx =>
    exact Extent.stands_foldl (Field.grows_build true) hf (Field.stands_build (hv _ hf) hx) b

theorem Program.valid_of_mem {p : Program} (hp : p.Valid) {name : String} {entries : List Entry}
    (hmem : .template name entries ∈ p) :
    ∃ before behind, p = before ++ .template name entries :: behind ∧
      Declaration.Valid (Program.names {} before) (.template name entries) := by
  obtain ⟨before, behind, rfl⟩ := List.append_of_mem hmem
  exact ⟨before, behind, rfl, (validFrom_append.1 hp).2.1⟩

/-- The arrays of a script that keeps the rules stand in its templates. -/
theorem Program.stands_script {p : Program} (hp : p.Valid) {name : String} {entries : List Entry}
    (hmem : .template name entries ∈ p) :
    ∃ t, p.script.template? name = some t ∧ ∀ e ∈ entries, ∀ fuzz x, e.Declares fuzz x →
      x.Stands t.items p.script.mutators fuzz := by
  obtain ⟨before, behind, rfl, -, hentries⟩ := valid_of_mem hp hmem
  rw [List.append_cons] at hp ⊢
  -- the template is finished at its declaration, and what follows only adds to the script
  have hextends := extends_append hp
  have hdeclared : declared (before ++ [.template name entries]) =
      (declared before).add (.template name entries) := List.foldl_append
  refine ⟨(entries.foldl (Entry.build (declared before).templates.named)
    { pool := (declared before).templates.pool }).template, ?_, ?_⟩
  · refine hextends.templates name _ ?_
    rw [script, hdeclared]
    exact mem_insertTemplate.2 (.inl rfl)
  · intro e he fuzz x hx
    have hmutators := hextends.mutators
    rw [script, hdeclared] at hmutators
    exact (Extent.stands_foldl Entry.grows_build he (Entry.stands_build (hentries e he) hx)
      _).mono (List.Subset.refl _) hmutators

/-- Outside braces the arrays of a script that keeps the rules fit. -/
theorem Program.fits_of_valid {p : Program} (hp : p.Valid) {name : String} {entries : List Entry}
    (hmem : .template name entries ∈ p) {e : Entry} (he : e ∈ entries)
    (hx : e.Declares false x) : x.Fits := by
  obtain ⟨before, behind, -, -, hentries⟩ := valid_of_mem hp hmem
  cases hx with
  | field hx => exact Field.fits_of_valid (hentries _ he) hx

end Source

/-! ## Expressions -/

namespace Expr

/-- The elements of a vector. -/
def extent (t : WireType) (lower upper : UInt64) : Extent := ⟨t.width, lower.toNat, upper.toNat⟩

variable {declared : Declared} {s l : Lowering}

/-- Whether a leaf can be in a template. Of a vector only the bounds are compared. -/
def Lowers (declared : Declared) : Expr → Prop
  | .type tag t | .constant tag t _ => tag.fuzzy = true → t.width ≠ .three
  | .reference _ name => (declared.lookup name).isSome
  | .vector tag _ lower upper => tag.fuzzy = true ∨ lower = upper
  | .property _ _ _ => False
  | .sequence _ _ | .fuzz _ _ => True

theorem exists_lowerScalar {tag : Tag} {t : WireType} {bits : UInt64} :
    (∃ l, lowerScalar tag t bits s = .ok l) ↔ (tag.fuzzy = true → t.width ≠ .three) := by
  rw [lowerScalar]
  by_cases hfuzzy : tag.fuzzy = true
  · by_cases hwidth : t.width = .three
    · simp [hfuzzy, hwidth]
    · simp [hfuzzy, hwidth]
  · simp [hfuzzy]

theorem exists_lower_leaf {e : Expr} (hleaf : ¬e.IsSequence) :
    (∃ l, e.lower declared s = .ok l) ↔ e.Lowers declared := by
  cases e with
  | type tag t | constant tag t value => exact exists_lowerScalar
  | reference tag name =>
    rw [Expr.lower, Lowers]
    cases declared.lookup name <;> simp
  | property tag name part => simp [Expr.lower, Lowers]
  | vector tag t lower upper =>
    rw [Expr.lower, Lowers]
    by_cases hfuzzy : tag.fuzzy = true
    · simp [hfuzzy]
    · by_cases hbounds : lower = upper
      · simp [hbounds, hfuzzy]
      · simp [hbounds, hfuzzy]
  | sequence | fuzz => exact absurd trivial hleaf

theorem exists_lowerAll {es : List Expr} (hleaves : ∀ e ∈ es, ¬e.IsSequence) :
    (∃ l, lowerAll declared es s = .ok l) ↔ ∀ e ∈ es, e.Lowers declared := by
  induction es generalizing s with
  | nil => simp [lowerAll]
  | cons e es ih =>
    obtain ⟨he, hleaves⟩ := List.forall_mem_cons.1 hleaves
    rw [List.forall_mem_cons, ← exists_lower_leaf (s := s) he, lowerAll]
    cases e.lower declared s with
    | ok s' => simpa using ih hleaves
    | error error => simp

/-- An expression becomes a template just if its leaves can be in one. -/
theorem exists_lower_iff {e : Expr} :
    (∃ l, e.lower declared s = .ok l) ↔ ∀ x ∈ e.leaves, x.Lowers declared := by
  rw [lower_eq_leaves, exists_lowerAll]
  exact fun x hx => (mem_leaves.1 hx).2

theorem kept_grows : Lowering.Kept fun s l => s.builder.Grows l.builder where
  refl s := .refl s.builder
  trans h h' := h.trans h'
  push s item := s.builder.grows_push item
  pushMutator s _ m := s.builder.grows_pushMutator m

/-- A vector inside a fuzzed sequence stands among the mutators, and any other one has a single
number of elements. -/
theorem stands_vector {tag : Tag} {t : WireType} {lower upper : UInt64}
    (h : (vector tag t lower upper).lower declared s = .ok l) :
    (extent t lower upper).Stands l.builder.items.toList l.builder.pool.states tag.fuzzy ∧
      (tag.fuzzy = false → lower = upper) := by
  rw [Expr.lower] at h
  split at h
  · next hfuzzy =>
    cases h
    rw [hfuzzy]
    exact ⟨(extent t lower upper).stands_pushMutator s.builder, fun h => absurd h (by decide)⟩
  next hfuzzy =>
  rw [Bool.not_eq_true] at hfuzzy
  split at h
  · next hbounds =>
    cases h
    rw [hfuzzy]
    exact ⟨(extent t lower upper).stands_push s.builder, fun _ => hbounds⟩
  · cases h

theorem stands_lower {e : Expr} (h : e.lower declared s = .ok l) {tag : Tag} {t : WireType}
    {lower upper : UInt64} (hmem : .vector tag t lower upper ∈ e.leaves) :
    (extent t lower upper).Stands l.builder.items.toList l.builder.pool.states tag.fuzzy ∧
      (tag.fuzzy = false → lower = upper) := by
  obtain ⟨s₁, s₂, hvector, hgrows⟩ := kept_grows.exists_lower_of_mem h hmem
  obtain ⟨hstands, hbounds⟩ := stands_vector hvector
  exact ⟨hstands.mono hgrows.items.subset hgrows.states, hbounds⟩

end Expr

/-! ## Layouts -/

/-- Whether an expression can be a part of a layout, as far as it is not made of parts. Of a vector
only the bounds are compared. -/
def Expr.IsRead : Expr → Prop
  | .type _ _ | .constant _ _ _ | .sequence _ _ => True
  | .vector _ _ lower upper => lower = upper
  | .reference _ _ | .property _ _ _ | .fuzz _ _ => False

namespace Layout

/-- Fields are added for leaves, among them one for each vector, which has a single number of
elements. The field takes as many bytes as are left of the size in 64 bits. -/
structure Scheduled (fields : Array Field) (leaves : List Expr) (fields' : Array Field) : Prop where
  grows : fields.toList ⊆ fields'.toList
  vector : ∀ tag t lower upper, .vector tag t lower upper ∈ leaves → lower = upper ∧
    .bytes ((Expr.extent t lower upper).size lower.toNat % 2 ^ (64 : Nat)) ∈ fields'.toList

variable {fields fields₁ fields' : Array Field} {xs ys : List Expr}

theorem Scheduled.append (h : Scheduled fields xs fields₁) (h' : Scheduled fields₁ ys fields') :
    Scheduled fields (xs ++ ys) fields' where
  grows := List.Subset.trans h.grows h'.grows
  vector tag t lower upper hmem := by
    rcases List.mem_append.1 hmem with hmem | hmem
    · exact (h.vector tag t lower upper hmem).imp_right fun hfield => h'.grows hfield
    · exact h'.vector tag t lower upper hmem

theorem toList_subset_push (fields : Array Field) (field : Field) :
    fields.toList ⊆ (fields.push field).toList := by
  rw [Array.toList_push]
  exact List.subset_append_left _ _

mutual

theorem scheduled_expr : ∀ (e : Expr) (fields : Array Field) {fields' : Array Field},
    scheduleExpr fields e = .ok fields' → Scheduled fields e.leaves fields'
  | .type tag t, fields, _, h | .constant tag t _, fields, _, h => by
    rw [scheduleExpr] at h
    cases h
    exact ⟨toList_subset_push _ _, fun _ _ _ _ hmem => by simp [Expr.leaves] at hmem⟩
  | .vector tag t lower upper, fields, _, h => by
    rw [scheduleExpr] at h
    split at h
    · next hbounds =>
      cases h
      refine ⟨toList_subset_push _ _, ?_⟩
      intro tag' t' lower' upper' hmem
      cases List.mem_singleton.1 hmem
      rw [Array.toList_push]
      exact ⟨hbounds, List.mem_append_right _ (List.mem_singleton_self _)⟩
    · cases h
  | .sequence _ items, fields, _, h => by
    rw [scheduleExpr] at h
    exact scheduled_all items fields h
  | .reference _ _, _, _, h | .property _ _ _, _, _, h | .fuzz _ _, _, _, h => by cases h

theorem scheduled_all : ∀ (es : List Expr) (fields : Array Field) {fields' : Array Field},
    scheduleAll fields es = .ok fields' → Scheduled fields (Expr.leavesAll es) fields'
  | [], fields, _, h => by
    rw [scheduleAll] at h
    cases h
    exact ⟨List.Subset.refl _, fun _ _ _ _ hmem => absurd hmem List.not_mem_nil⟩
  | e :: es, fields, _, h => by
    rw [scheduleAll] at h
    split at h
    · next fields₁ he => exact (scheduled_expr e fields he).append (scheduled_all es fields₁ h)
    · cases h

end

mutual

/-- An expression becomes a layout just if all its parts can be in one. -/
theorem exists_scheduleExpr : ∀ (e : Expr) (fields : Array Field),
    (∃ fields', scheduleExpr fields e = .ok fields') ↔ ∀ x ∈ e.postorder, x.IsRead
  | .type _ _, fields | .constant _ _ _, fields => by
    simp [scheduleExpr, Expr.postorder, Expr.nested, Expr.IsRead]
  | .vector _ _ lower upper, fields => by
    by_cases hbounds : lower = upper
    · simp [scheduleExpr, Expr.postorder, Expr.nested, Expr.IsRead, hbounds]
    · simp [scheduleExpr, Expr.postorder, Expr.nested, Expr.IsRead, hbounds]
  | .sequence tag items, fields => by
    rw [scheduleExpr, exists_scheduleAll items fields, Expr.postorder, Expr.nested,
      List.forall_mem_append, List.forall_mem_singleton]
    exact (and_iff_left trivial).symm
  | .reference tag name, fields | .property tag name _, fields | .fuzz tag _, fields => by
    refine iff_of_false ?_ fun h => h _ (Expr.mem_postorder_self _)
    rintro ⟨fields', h⟩
    cases h

theorem exists_scheduleAll : ∀ (es : List Expr) (fields : Array Field),
    (∃ fields', scheduleAll fields es = .ok fields') ↔ ∀ x ∈ Expr.postorderAll es, x.IsRead
  | [], fields => by simp [scheduleAll, Expr.postorderAll]
  | e :: es, fields => by
    rw [scheduleAll, Expr.postorderAll, ← Expr.postorder, List.forall_mem_append,
      ← exists_scheduleExpr e fields]
    cases scheduleExpr fields e with
    | ok fields₁ => simpa using exists_scheduleAll es fields₁
    | error fault => simp

end

end Layout

/-! ## All paths -/

/-- The sizes of the arrays in a script and of the vectors in an expression. -/
structure ArraySizes (source : String) (e : Expr) : Prop where
  /-- A script that is compiled has its arrays in its templates. Outside braces they fit. -/
  compiled : ∀ s, compile source = .ok s → (∃ p : Program, p.Written (lexemes source)) ∧
    ∀ p : Program, p.Written (lexemes source) → ∀ name entries, .template name entries ∈ p →
      ∃ t, s.template? name = some t ∧ ∀ entry ∈ entries, ∀ fuzz x, entry.Declares fuzz x →
        x.Stands t.items s.mutators fuzz ∧ (fuzz = false → x.Fits)
  /-- A script with an array outside braces that does not fit is refused. -/
  refused : ∀ p : Program, p.Written (lexemes source) → ∀ name entries,
    .template name entries ∈ p → ∀ entry ∈ entries, ∀ x, entry.Declares false x → ¬x.Fits →
      ∃ d, compile source = .error d
  /-- Whether an expression becomes a template does not depend on sizes, and then its vectors are in
  it. Outside fuzzed sequences they have a single number of elements. -/
  lowered : ∀ declared s,
    ((∃ l, e.lower declared s = .ok l) ↔ ∀ x ∈ e.leaves, x.Lowers declared) ∧
    ∀ l, e.lower declared s = .ok l → ∀ tag t lower upper, .vector tag t lower upper ∈ e.leaves →
      (Expr.extent t lower upper).Stands l.builder.items.toList l.builder.pool.states tag.fuzzy ∧
        (tag.fuzzy = false → lower = upper)
  /-- Whether an expression becomes a layout does not depend on sizes. Then there are fields for its
  vectors, with as many bytes as are left of the sizes in 64 bits. -/
  scheduled : ((∃ l, Layout.ofExpr e = .ok l) ↔ ∀ x ∈ e.postorder, x.IsRead) ∧
    ∀ l, Layout.ofExpr e = .ok l → ∀ tag t lower upper, .vector tag t lower upper ∈ e.leaves →
      lower = upper ∧
        .bytes ((Expr.extent t lower upper).size lower.toNat % 2 ^ (64 : Nat)) ∈ l.fields.toList
  /-- A mutator writes just as many bytes as are declared if the sizes fit, and only then. -/
  exact : ∀ (x : Extent) (m : Mutator), x.Walked m → (x.Fits ↔ ∀ order n, x.lower ≤ n →
    n ≤ x.upper → ((m.after (n - x.lower)).bytes order).length = x.size n)

theorem arraySizes (source : String) (e : Expr) : ArraySizes source e where
  compiled s hs := by
    refine ⟨exists_written_of_compile hs, ?_⟩
    intro p hw name entries hmem
    obtain ⟨hp, rfl⟩ := valid_of_compile hw hs
    obtain ⟨t, ht, hstands⟩ := Program.stands_script hp hmem
    refine ⟨t, ht, ?_⟩
    intro entry hentry fuzz x hx
    refine ⟨hstands entry hentry fuzz x hx, ?_⟩
    rintro rfl
    exact Program.fits_of_valid hp hmem hentry hx
  refused p hw name entries hmem entry hentry x hx hfits := by
    rcases compile_of_written hw with ⟨hp, -⟩ | ⟨-, hrefused⟩
    · exact absurd (Program.fits_of_valid hp hmem hentry hx) hfits
    · exact hrefused
  lowered declared s := by
    refine ⟨Expr.exists_lower_iff, ?_⟩
    intro l h tag t lower upper hmem
    exact Expr.stands_lower h hmem
  scheduled := by
    rw [Layout.ofExpr, ← Layout.exists_scheduleExpr e #[]]
    cases hfields : Layout.scheduleExpr #[] e with
    | ok fields =>
      refine ⟨by simp, ?_⟩
      intro l hl
      cases hl
      exact (Layout.scheduled_expr e #[] hfields).vector
    | error fault => simp
  exact x m h := h.fits_iff

/-- A script has an array of either kind, a script with one that is too large is refused, and a
vector becomes zeros and a field. -/
theorem arraySizes_small :
    (∃ s t, compile "template t = [array<word>(3), \x7barray<byte>(1-2)\x7d];" = .ok s ∧
      s.template? "t" = some t ∧ Extent.Stands ⟨.two, 3, 3⟩ t.items s.mutators false ∧
      Extent.Stands ⟨.one, 1, 2⟩ t.items s.mutators true) ∧
    (∃ d, compile "template t = [array<qword>(2305843009213693952)];" = .error d) ∧
    (∃ l, (Expr.vector ⟨0, false⟩ ⟨.two, false⟩ 3 3).lower [] {} = .ok l ∧
      Extent.Stands ⟨.two, 3, 3⟩ l.builder.items.toList l.builder.pool.states false) ∧
    ∃ l, Layout.ofExpr (.vector ⟨0, false⟩ ⟨.two, false⟩ 3 3) = .ok l ∧
      .bytes 6 ∈ l.fields.toList := by
  let e : Expr := .vector ⟨0, false⟩ ⟨.two, false⟩ 3 3
  -- the arrays as they are written
  let words : Entry := .field (.array .two 3 none)
  let bytes : Entry := .group [.array .one 1 (some 2)]
  let large : Entry := .field (.array .eight 2305843009213693952 none)
  have hwords : words.Written _ := .field (@Field.Written.array .word _ rfl 3)
  have hbytes : bytes.Written _ :=
    @Entry.Written.group [(_, .array .one 1 (some 2))] (List.cons_ne_nil _ _)
      (List.forall_mem_singleton.2 (@Field.Written.range .byte _ rfl 1 2))
  have hlarge : large.Written _ := .field (@Field.Written.array .qword _ rfl 2305843009213693952)
  have hw : Program.Written (lexemes "template t = [array<word>(3), \x7barray<byte>(1-2)\x7d];")
      [.template "t" [words, bytes]] := by
    have hwritten := Program.Written.cons
      (@Declaration.Written.template "t" [(_, words), (_, bytes)]
      (List.cons_ne_nil _ _) (List.forall_mem_cons.2 ⟨hwords, List.forall_mem_singleton.2 hbytes⟩))
      .nil
    refine Eq.subst (motive := fun ls => Program.Written ls _) ?_ hwritten
    cbv
  have hlargeWritten : Program.Written
      (lexemes "template t = [array<qword>(2305843009213693952)];") [.template "t" [large]] := by
    have hwritten := Program.Written.cons (@Declaration.Written.template "t" [(_, large)]
      (List.cons_ne_nil _ _) (List.forall_mem_singleton.2 hlarge)) .nil
    refine Eq.subst (motive := fun ls => Program.Written ls _) ?_ hwritten
    cbv
  have hc : compile "template t = [array<word>(3), \x7barray<byte>(1-2)\x7d];" =
      .ok (Program.script [.template "t" [words, bytes]]) := by
    cbv
  obtain ⟨t, ht, harrays⟩ := ((arraySizes _ e).compiled _ hc).2 _ hw "t" _
    (List.mem_singleton_self _)
  refine ⟨⟨_, t, hc, ht, ?_, ?_⟩, ?_, ⟨_, rfl, ?_⟩, ⟨_, rfl, ?_⟩⟩
  · exact (harrays words (by simp) _ _ (.field rfl)).1
  · exact (harrays bytes (by simp) _ _ (.group (List.mem_singleton_self _) rfl)).1
  · refine (arraySizes _ e).refused _ hlargeWritten "t" _ (List.mem_singleton_self _) large
      (List.mem_singleton_self _) ⟨.eight, 2 ^ (61 : Nat), 2 ^ (61 : Nat)⟩ (.field rfl) ?_
    intro hfits
    exact absurd (hfits (2 ^ (61 : Nat)) (Nat.le_refl _) (Nat.le_refl _)) (by decide)
  · exact (((arraySizes "" e).lowered [] {}).2 _ rfl _ _ _ _ (List.mem_singleton_self _)).1
  · exact ((arraySizes "" e).scheduled.2 _ rfl _ _ _ _ (List.mem_singleton_self _)).2

/-- An array in braces that has up to `2 ^ 61` elements of eight bytes is accepted, and with that
many it is empty. So are a vector and a field of a layout of this size. -/
theorem accepted_without_fitting :
    ¬Extent.Fits ⟨.eight, 0, 2 ^ (61 : Nat)⟩ ∧
    (∃ s t m, compile "template t = [ \x7barray<qword>(0-2305843009213693952)\x7d ];" = .ok s ∧
      s.template? "t" = some t ∧ t.items = [.mutator 0] ∧ s.mutators = #[m] ∧
      m = .ofLengths 8 0 (2 ^ (61 : Nat)) ∧ (m.after (2 ^ (61 : Nat))).bytes .bigEndian = []) ∧
    let e := Expr.vector ⟨0, false⟩ ⟨.eight, false⟩ 2305843009213693952 2305843009213693952
    (∃ l, e.lower [] {} = .ok l ∧ l.builder.items = #[.buffer []]) ∧
      Layout.ofExpr e = .ok { fields := #[.bytes 0] } := by
  have hempty :
      ((Mutator.ofLengths 8 0 (2 ^ (61 : Nat))).after (2 ^ (61 : Nat))).bytes .bigEndian = [] := by
    have hwalked := Extent.walked_ofLengths ⟨.eight, 0, 2 ^ (61 : Nat)⟩ .bigEndian
      (2 ^ (61 : Nat)) (by decide) (by decide)
    have hsize : Extent.size ⟨.eight, 0, 2 ^ (61 : Nat)⟩ (2 ^ (61 : Nat)) % 2 ^ (64 : Nat) = 0 := by
      decide
    rw [hsize] at hwalked
    exact hwalked
  refine ⟨?_, ⟨_, _, _, by cbv, by cbv, rfl, by cbv, rfl, hempty⟩, ⟨_, rfl, by cbv⟩, by cbv⟩
  intro hfits
  exact absurd (hfits (2 ^ (61 : Nat)) (Nat.zero_le _) (Nat.le_refl _)) (by decide)

end ScriptFuzz
