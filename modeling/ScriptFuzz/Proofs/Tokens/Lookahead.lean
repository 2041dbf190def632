import ScriptFuzz.Token.Lexer
import ScriptFuzz.Proofs.Tokens.Slices

/-!
# Lookahead

A lexer answers any calls as if nothing had been looked at before it was taken.

- `Lexer.Call`, `Lexer.gets`: calls of a lexer, and what those that take a reading return.
- `Names.readings`: the readings of tokens, with the numbers of their texts.
- `Lexer.upcoming`: the readings that come next, a function of what the lexer holds. Taking one
  moves on by one (`upcoming_get`); looking at one changes nothing (`upcoming_peek`).
- `Lexer.lastFault_of_call`, `Lexer.lastFault_of_tokens`: a malformed token comes with its own
  fault.
- `tokens_partition`: the tokens of a source and the blanks and comments around them make up the
  source, and a lexer returns them in order, whatever is looked at in between.
-/

namespace ScriptFuzz

/-- What is done with a lexer. -/
inductive Lexer.Call where
  /-- Takes the next reading. -/
  | get
  /-- Looks at the next reading. -/
  | peek
deriving DecidableEq, Repr

/-- The readings of tokens. A text that has no number yet gets the next one. -/
def Names.readings (names : Names) : List Token → List Reading
  | [] => []
  | t :: ts =>
    match t.lexeme.text? with
    | none => .token t none :: names.readings ts
    | some text => .token t (some (names.intern text).1) :: (names.intern text).2.readings ts

/-- Each token has its reading at its place. -/
theorem Names.readings_append (names : Names) (before : List Token) (t : Token)
    (rest : List Token) :
    ∃ name, (names.readings (before ++ t :: rest))[before.length]? = some (.token t name) := by
  induction before generalizing names with
  | nil =>
    rw [List.nil_append, readings]
    split <;> exact ⟨_, rfl⟩
  | cons u before ih =>
    rw [List.cons_append, readings]
    split
    · exact ih names
    · next text _ => exact ih (names.intern text).2

/-- Tokens that were read before stay in front. -/
theorem TokenStream.collect_reverse (read : List Token) (p : Position) (cs : List Char) :
    collect read p cs =
      ⟨read.reverse ++ (collect [] p cs).tokens, (collect [] p cs).fin⟩ := by
  rw [collect_eq, collect_eq []]
  cases hnext : Token.next p cs with
  | inl fin => rw [List.reverse_nil, List.append_nil]
  | inr next =>
    obtain ⟨t, stop, rest⟩ := next
    dsimp only
    rw [collect_reverse (t :: read), collect_reverse [t], List.reverse_cons, List.append_assoc]
    rfl
termination_by cs.length
decreasing_by all_goals exact Token.length_next_lt hnext

namespace Lexer

/-- Answers a call. -/
def call (lexer : Lexer) : Call → Reading × Lexer
  | .get => lexer.get
  | .peek => lexer.peek

/-- The lexer behind some calls. -/
def after (lexer : Lexer) (calls : List Call) : Lexer :=
  calls.foldl (fun lexer c => (lexer.call c).2) lexer

/-- What every call preserves is preserved by any calls. -/
theorem preserved_after {P : Lexer → Prop} (hcall : ∀ lexer c, P lexer → P (lexer.call c).2)
    {lexer : Lexer} (h : P lexer) (calls : List Call) : P (lexer.after calls) := by
  induction calls generalizing lexer with
  | nil => exact h
  | cons c calls ih => exact ih (hcall lexer c h)

/-- What the calls that take a reading return. -/
def gets (lexer : Lexer) : List Call → List Reading
  | [] => []
  | .get :: calls => lexer.get.1 :: lexer.get.2.gets calls
  | .peek :: calls => lexer.peek.2.gets calls

/-- The readings that come next: the one that has been looked at, then those of the text that is
left, and the end of the source forever after. -/
def upcoming (lexer : Lexer) (k : Nat) : Reading :=
  let stream := TokenStream.collect [] lexer.pos lexer.rest
  (lexer.ahead.toList ++ lexer.names.readings stream.tokens)[k]?.getD (.endOfInput stream.fin)

variable {lexer : Lexer} {t : Token} {stop : Position} {rest : List Char}

theorem scan_of_token (hnext : Token.next lexer.pos lexer.rest = .inr (t, stop, rest))
    (ts : List Token) :
    lexer.names.readings (t :: ts) = lexer.scan.1 :: lexer.scan.2.names.readings ts ∧
      lexer.scan.2.pos = stop ∧ lexer.scan.2.rest = rest ∧ lexer.scan.2.ahead = lexer.ahead := by
  rw [scan, hnext]
  obtain ⟨lexeme, pos⟩ := t
  cases lexeme <;> exact ⟨rfl, rfl, rfl, rfl⟩

theorem scan_of_end {fin : Position} (hnext : Token.next lexer.pos lexer.rest = .inl fin) :
    lexer.scan = (.endOfInput fin, { lexer with rest := [], pos := fin }) := by
  rw [scan, hnext]

theorem upcoming_scan (hahead : lexer.ahead = none) (k : Nat) :
    lexer.scan.1 = lexer.upcoming 0 ∧ lexer.scan.2.upcoming k = lexer.upcoming (k + 1) := by
  unfold upcoming
  rw [TokenStream.collect_eq [] lexer.pos]
  cases hnext : Token.next lexer.pos lexer.rest with
  | inl fin =>
    have hend : Token.next fin [] = .inl fin := rfl
    rw [scan_of_end hnext]
    dsimp only
    rw [TokenStream.collect_eq, hend, hahead]
    exact ⟨rfl, rfl⟩
  | inr next =>
    obtain ⟨t, stop, rest⟩ := next
    dsimp only
    rw [TokenStream.collect_reverse [t]]
    obtain ⟨hreadings, hpos, hrest, hahead'⟩ :=
      scan_of_token hnext (TokenStream.collect [] stop rest).tokens
    dsimp only
    rw [List.reverse_singleton, List.singleton_append, hreadings, hpos, hrest, hahead', hahead]
    exact ⟨rfl, rfl⟩

theorem ahead_get (lexer : Lexer) : lexer.get.2.ahead = none := by
  rw [get]
  cases hahead : lexer.ahead with
  | some reading => rfl
  | none =>
    cases hnext : Token.next lexer.pos lexer.rest with
    | inl fin => rw [scan_of_end hnext, hahead]
    | inr next => rw [(scan_of_token hnext []).2.2.2, hahead]

/-- A lexer gives the next reading and moves on. -/
theorem upcoming_get (lexer : Lexer) (k : Nat) :
    lexer.get.1 = lexer.upcoming 0 ∧ lexer.get.2.upcoming k = lexer.upcoming (k + 1) := by
  cases hahead : lexer.ahead with
  | none =>
    rw [get, hahead]
    exact upcoming_scan hahead k
  | some reading =>
    rw [get, hahead, upcoming, upcoming, upcoming, hahead]
    exact ⟨rfl, rfl⟩

/-- What has been looked at still comes next. -/
theorem upcoming_peek (lexer : Lexer) (k : Nat) : lexer.peek.2.upcoming k = lexer.upcoming k := by
  have hahead := ahead_get lexer
  cases k with
  | zero => exact (upcoming_get lexer 0).1
  | succ k =>
    rw [← (upcoming_get lexer k).2, upcoming, upcoming, hahead]
    rfl

/-- A call returns what comes next. -/
theorem call_fst (lexer : Lexer) (c : Call) : (lexer.call c).1 = lexer.upcoming 0 := by
  cases c with
  | get => exact (upcoming_get lexer 0).1
  | peek => exact (upcoming_get lexer 0).1

/-- Behind some calls comes what was behind the readings that they took. -/
theorem upcoming_after (lexer : Lexer) (calls : List Call) (k : Nat) :
    (lexer.after calls).upcoming k = lexer.upcoming (calls.count .get + k) := by
  induction calls generalizing lexer with
  | nil => rw [List.count_nil, Nat.zero_add, after, List.foldl_nil]
  | cons c calls ih =>
    rw [after, List.foldl_cons, ← after, ih]
    cases c with
    | get =>
      rw [List.count_cons_self, Nat.add_right_comm]
      exact (upcoming_get lexer _).2
    | peek =>
      rw [List.count_cons_of_ne (by decide)]
      exact upcoming_peek lexer _

/-- What is taken is what comes next, one reading after the other, whatever is looked at. -/
theorem gets_eq (lexer : Lexer) (calls : List Call) :
    lexer.gets calls = (List.range (calls.count .get)).map lexer.upcoming := by
  induction calls generalizing lexer with
  | nil => rfl
  | cons c calls ih =>
    cases c with
    | get =>
      rw [gets, ih, List.count_cons_self, List.range_succ_eq_map, List.map_cons, List.map_map,
        (upcoming_get lexer 0).1]
      exact congrArg _ (List.map_congr_left fun k _ => (upcoming_get lexer k).2)
    | peek =>
      rw [gets, ih, List.count_cons_of_ne (by decide)]
      exact List.map_congr_left fun k _ => upcoming_peek lexer k

/-- What a lexer has left behind `k` readings are the slices that were not taken. -/
theorem rest_after {before last : List Char} {slices : List Slice}
    (h : Sliced before slices last) (hpos : lexer.pos = .behind before)
    (hrest : lexer.rest = slices.flatMap Slice.text ++ last) (hahead : lexer.ahead = none)
    {k : Nat} (hk : k ≤ slices.length) :
    (lexer.after (List.replicate k .get)).rest = (slices.drop k).flatMap Slice.text ++ last := by
  induction h generalizing lexer k with
  | nil =>
    rw [Nat.le_zero.1 hk]
    exact hrest
  | @cons before last s slices _ hnext _ ih =>
    cases k with
    | zero => exact hrest
    | succ k =>
      rw [List.flatMap_cons, List.append_assoc] at hrest
      rw [← hpos, ← hrest] at hnext
      obtain ⟨-, hpos', hrest', hahead'⟩ := scan_of_token hnext []
      have hget : lexer.get = lexer.scan := by rw [get, hahead]
      rw [← hget] at hpos' hrest' hahead'
      exact ih hpos' hrest' (hahead'.trans hahead) (Nat.le_of_succ_le_succ hk)

/-! ## Faults -/

/-- If a malformed token has been looked at, then its fault is the last one. -/
def FaultKept (lexer : Lexer) : Prop :=
  ∀ t name fault, lexer.ahead = some (.token t name) → t.lexeme = .malformed fault →
    lexer.lastFault = some fault

variable {name : Option Nat} {fault : LexFault}

theorem lastFault_scan (ht : lexer.scan.1 = .token t name) (hfault : t.lexeme = .malformed fault) :
    lexer.scan.2.lastFault = some fault := by
  cases hnext : Token.next lexer.pos lexer.rest with
  | inl fin =>
    rw [scan_of_end hnext] at ht
    cases ht
  | inr next =>
    obtain ⟨⟨lexeme, pos⟩, stop, rest⟩ := next
    rw [scan, hnext] at ht ⊢
    cases lexeme <;> cases ht <;> cases hfault
    rfl

theorem FaultKept.get (h : lexer.FaultKept) (ht : lexer.get.1 = .token t name)
    (hfault : t.lexeme = .malformed fault) : lexer.get.2.lastFault = some fault := by
  rw [Lexer.get] at ht ⊢
  cases hahead : lexer.ahead with
  | none =>
    rw [hahead] at ht
    exact lastFault_scan ht hfault
  | some reading =>
    rw [hahead] at ht
    cases ht
    exact h t name fault hahead hfault

/-- A call keeps what is said of faults, and a malformed token comes with its own. -/
theorem FaultKept.call (h : lexer.FaultKept) (c : Call) :
    (lexer.call c).2.FaultKept ∧ ∀ t name fault, (lexer.call c).1 = .token t name →
      t.lexeme = .malformed fault → (lexer.call c).2.lastFault = some fault := by
  have hget : ∀ t name fault, lexer.get.1 = .token t name → t.lexeme = .malformed fault →
      lexer.get.2.lastFault = some fault := fun _ _ _ => h.get
  cases c with
  | get =>
    refine ⟨?_, hget⟩
    intro t name fault hahead
    cases (ahead_get lexer).symm.trans hahead
  | peek =>
    refine ⟨?_, hget⟩
    intro t name fault hahead
    exact hget t name fault (Option.some.inj hahead)

theorem FaultKept.after (h : lexer.FaultKept) (calls : List Call) :
    (lexer.after calls).FaultKept :=
  preserved_after (P := FaultKept) (fun _ c h => (h.call c).1) h calls

/-- Whenever a lexer returns a malformed token, the fault that it keeps is that of the token. -/
theorem lastFault_of_call {source : String} {calls : List Call} {c : Call}
    (ht : (((ofSource source).after calls).call c).1 = .token t name)
    (hfault : t.lexeme = .malformed fault) :
    (((ofSource source).after calls).call c).2.lastFault = some fault := by
  have hstart : (ofSource source).FaultKept := by
    intro t name fault hahead
    cases hahead
  exact ((hstart.after calls).call c).2 t name fault ht hfault

/-- A lexer that has taken the tokens in front of a malformed one, and nothing more, returns that
token next, and then its fault is the last one. -/
theorem lastFault_of_tokens {source : String} {before rest : List Token}
    (htokens : (TokenStream.ofSource source).tokens = before ++ t :: rest)
    (hfault : t.lexeme = .malformed fault) {calls : List Call}
    (hcalls : calls.count .get = before.length) (c : Call) :
    ∃ name, (((ofSource source).after calls).call c).1 = .token t name ∧
      (((ofSource source).after calls).call c).2.lastFault = some fault := by
  obtain ⟨name, hname⟩ := Names.readings_append {} before t rest
  have hreturns : (((ofSource source).after calls).call c).1 = .token t name := by
    rw [call_fst, upcoming_after, hcalls, Nat.add_zero]
    show (Names.readings {} (TokenStream.ofSource source).tokens)[before.length]?.getD _ = _
    rw [htokens, hname, Option.getD_some]
  exact ⟨name, hreturns, lastFault_of_call hreturns hfault⟩

end Lexer

/-! ## Sources -/

/-- A source is made of slices: blanks and comments that are skipped, and the characters of one
token each, malformed ones included; behind the last slice there are only blanks and comments. Each
token has its place, counted from all characters in front of it. A lexer takes the slices in order,
one by one, and is then at the end forever, whatever is looked at in between. -/
theorem tokens_partition (source : String) :
    ∃ (slices : List Slice) (last : List Char),
      source.toList = slices.flatMap Slice.text ++ last ∧
      (∀ (i : Nat) (s : Slice), slices[i]? = some s →
        s.Sound ((slices.take i).flatMap Slice.text)) ∧
      LastGap last ∧ slices.length ≤ source.length ∧
      TokenStream.ofSource source = ⟨slices.map Slice.token, .behind source.toList⟩ ∧
      (∀ k ≤ slices.length, ((Lexer.ofSource source).after (List.replicate k .get)).rest =
        (slices.drop k).flatMap Slice.text ++ last) ∧
      ∀ calls : List Lexer.Call, (Lexer.ofSource source).gets calls =
        (List.range (calls.count .get)).map fun k =>
          (Names.readings {} (slices.map Slice.token))[k]?.getD
            (.endOfInput (.behind source.toList)) := by
  obtain ⟨slices, last, htext, h⟩ := exists_sliced [] source.toList
  have hstream : TokenStream.collect [] {} source.toList =
      ⟨slices.map Slice.token, .behind source.toList⟩ := by
    rw [htext]
    exact h.collect []
  refine ⟨slices, last, htext, fun i s => h.sound, h.lastGap, ?_, hstream, ?_, ?_⟩
  · rw [← String.length_toList, htext, List.length_append]
    exact Nat.le_add_right_of_le h.length_le
  · intro k hk
    exact Lexer.rest_after h rfl htext rfl hk
  · intro calls
    rw [Lexer.gets_eq]
    unfold Lexer.upcoming Lexer.ofSource
    dsimp only
    rw [hstream]
    rfl

end ScriptFuzz
