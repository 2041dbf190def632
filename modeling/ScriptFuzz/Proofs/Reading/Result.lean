import ScriptFuzz.Script.Parser

/-!
# How reading ends

Two ways to speak about the end of reading, and what they say of the readers of single tokens.

- `ParseResult.Gives Q`: if something was read, then `Q` holds of it and of what is left.
- `ParseResult.Meets ok Q`: something was read exactly if `ok` holds, and then `Q` holds of it and
  of what is left.

Both go through `bind` and `weaken`, so a reader that is put together from others is looked at part
by part. Statements about tokens speak of their lexemes (`Cursor.lexemes`): no reader decides
anything by places.
-/

namespace ScriptFuzz

namespace ParseResult

variable {α β : Type} {start earlier : Cursor}

/-- If something was read, then `Q` holds of it and of what is left. -/
def Gives (Q : α → Cursor → Prop) : ParseResult α start → Prop
  | parsed value after _ => Q value after
  | stopped _ _ => True

/-- Something was read exactly if `ok` holds, and then `Q` holds of it and of what is left. -/
def Meets (ok : Prop) (Q : α → Cursor → Prop) : ParseResult α start → Prop
  | parsed value after _ => ok ∧ Q value after
  | stopped _ _ => ¬ok

/-! ## If something was read -/

theorem Gives.imp {Q R : α → Cursor → Prop} {o : ParseResult α start} (h : o.Gives Q)
    (hQR : ∀ v a, Q v a → R v a) : o.Gives R := by
  cases o with
  | parsed value after shorter => exact hQR value after h
  | stopped d after => trivial

theorem Gives.of_parsed {Q : α → Cursor → Prop} {o : ParseResult α start} (h : o.Gives Q)
    {v : α} {a : Cursor} {s : a.rest.length < start.rest.length} (e : o = .parsed v a s) :
    Q v a := by
  rw [e] at h
  exact h

theorem Gives.bind {Q : α → Cursor → Prop} {R : β → Cursor → Prop} {o : ParseResult α start}
    {f : (value : α) → (after : Cursor) → after.rest.length < start.rest.length →
      ParseResult β start}
    (h : o.Gives Q) (hf : ∀ v a s, Q v a → (f v a s).Gives R) : (o.bind f).Gives R := by
  cases o with
  | parsed value after shorter => exact hf value after shorter h
  | stopped d after => trivial

theorem Gives.weaken {Q : α → Cursor → Prop} {o : ParseResult α start} (h : o.Gives Q)
    (hle : start.rest.length ≤ earlier.rest.length) : (o.weaken hle).Gives Q := by
  cases o with
  | parsed value after shorter => exact h
  | stopped d after => trivial

theorem Gives.behind {Q : α → Cursor → Prop} {o : ParseResult α start} (h : o.Gives Q)
    (hlt : start.rest.length < earlier.rest.length) : (o.behind hlt).Gives Q :=
  h.weaken _

theorem gives_ofCheck {Q : α → Cursor → Prop} {pos : Position} {c : Cursor}
    {h : c.rest.length < start.rest.length} {check : Except SemanticFault α}
    (hQ : ∀ v, Q v c) : (ofCheck pos c h check).Gives Q := by
  cases check with
  | ok value => exact hQ value
  | error fault => trivial

/-! ## Whether something was read -/

theorem Meets.imp {ok ok' : Prop} {Q R : α → Cursor → Prop} {o : ParseResult α start}
    (h : o.Meets ok Q) (hok : ok ↔ ok') (hQR : ok → ∀ v a, Q v a → R v a) : o.Meets ok' R := by
  cases o with
  | parsed value after shorter => exact ⟨hok.1 h.1, hQR h.1 value after h.2⟩
  | stopped d after => exact fun h' => h (hok.2 h')

theorem Meets.congr {ok ok' : Prop} {Q : α → Cursor → Prop} {o : ParseResult α start}
    (h : o.Meets ok Q) (hok : ok ↔ ok') : o.Meets ok' Q :=
  h.imp hok fun _ _ _ hQ => hQ

theorem Meets.of_parsed {ok : Prop} {Q : α → Cursor → Prop} {o : ParseResult α start}
    (h : o.Meets ok Q) {v : α} {a : Cursor} {s : a.rest.length < start.rest.length}
    (e : o = .parsed v a s) : ok ∧ Q v a := by
  rw [e] at h
  exact h

theorem Meets.of_stopped {ok : Prop} {Q : α → Cursor → Prop} {o : ParseResult α start}
    (h : o.Meets ok Q) {d : Diagnostic} {a : Cursor} (e : o = .stopped d a) : ¬ok := by
  rw [e] at h
  exact h

/-- The second part of a reader is looked at only if the first one has read something. -/
theorem Meets.bind {ok ok' : Prop} {Q : α → Cursor → Prop} {R : β → Cursor → Prop}
    {o : ParseResult α start}
    {f : (value : α) → (after : Cursor) → after.rest.length < start.rest.length →
      ParseResult β start}
    (h : o.Meets ok Q) (hf : ok → ∀ v a s, Q v a → (f v a s).Meets ok' R) :
    (o.bind f).Meets (ok ∧ ok') R := by
  cases o with
  | parsed value after shorter =>
    obtain ⟨hok, hQ⟩ := h
    exact (hf hok value after shorter hQ).congr ⟨fun h' => ⟨hok, h'⟩, fun h' => h'.2⟩
  | stopped d after => exact fun h' => h h'.1

/-- The first part of a reader succeeds in any case. -/
theorem Meets.bind_true {ok : Prop} {Q : α → Cursor → Prop} {R : β → Cursor → Prop}
    {o : ParseResult α start}
    {f : (value : α) → (after : Cursor) → after.rest.length < start.rest.length →
      ParseResult β start}
    (h : o.Meets True Q) (hf : ∀ v a s, Q v a → (f v a s).Meets ok R) : (o.bind f).Meets ok R :=
  (h.bind fun _ => hf).congr (.of_eq (true_and ok))

/-- The second part of a reader succeeds in any case. -/
theorem Meets.bind_then {ok : Prop} {Q : α → Cursor → Prop} {R : β → Cursor → Prop}
    {o : ParseResult α start}
    {f : (value : α) → (after : Cursor) → after.rest.length < start.rest.length →
      ParseResult β start}
    (h : o.Meets ok Q) (hf : ok → ∀ v a s, Q v a → (f v a s).Meets True R) :
    (o.bind f).Meets ok R :=
  (h.bind hf).congr (.of_eq (and_true ok))

/-- What is read if reading succeeds in any case. -/
theorem Meets.exists_parsed {Q : α → Cursor → Prop} {o : ParseResult α start}
    (h : o.Meets True Q) : ∃ v a s, o = .parsed v a s ∧ Q v a := by
  cases o with
  | parsed value after shorter => exact ⟨value, after, shorter, rfl, h.2⟩
  | stopped d after => exact absurd trivial h

theorem Meets.weaken {ok : Prop} {Q : α → Cursor → Prop} {o : ParseResult α start}
    (h : o.Meets ok Q) (hle : start.rest.length ≤ earlier.rest.length) :
    (o.weaken hle).Meets ok Q := by
  cases o with
  | parsed value after shorter => exact h
  | stopped d after => exact h

theorem Meets.behind {ok : Prop} {Q : α → Cursor → Prop} {o : ParseResult α start}
    (h : o.Meets ok Q) (hlt : start.rest.length < earlier.rest.length) :
    (o.behind hlt).Meets ok Q :=
  h.weaken _

/-- A check passes exactly if `ok` holds, and then gives `v`. -/
def Passes (ok : Prop) (v : α) (check : Except SemanticFault α) : Prop :=
  (ok ∧ check = .ok v) ∨ (¬ok ∧ ∃ fault, check = .error fault)

theorem meets_ofCheck {ok : Prop} {v : α} {pos : Position} {c : Cursor}
    {h : c.rest.length < start.rest.length} {check : Except SemanticFault α}
    (hc : Passes ok v check) :
    (ofCheck pos c h check).Meets ok fun v' after => v' = v ∧ after = c := by
  rcases hc with ⟨hok, rfl⟩ | ⟨hok, fault, rfl⟩
  · exact ⟨hok, rfl, rfl⟩
  · exact hok

end ParseResult

namespace Cursor

/-- What the tokens that have not been taken are. -/
def lexemes (c : Cursor) : List Lexeme := c.rest.map Token.lexeme

/-- From one cursor to a later one, lexemes with the property `P` were taken. -/
def Spells (c after : Cursor) (P : List Lexeme → Prop) : Prop :=
  ∃ ts, c.lexemes = ts ++ after.lexemes ∧ P ts

theorem Spells.imp {c after : Cursor} {P Q : List Lexeme → Prop} (h : c.Spells after P)
    (hPQ : ∀ ts, P ts → Q ts) : c.Spells after Q := by
  obtain ⟨ts, hts, hP⟩ := h
  exact ⟨ts, hts, hPQ ts hP⟩

/-- What is spelled behind some lexemes, together with those. -/
theorem Spells.append {c mid after : Cursor} {ts : List Lexeme} {P : List Lexeme → Prop}
    (hc : c.lexemes = ts ++ mid.lexemes) (h : mid.Spells after fun us => P (ts ++ us)) :
    c.Spells after P := by
  obtain ⟨us, hus, hP⟩ := h
  refine ⟨ts ++ us, ?_, hP⟩
  rw [hc, hus, List.append_assoc]

theorem Spells.cons {c mid after : Cursor} {l : Lexeme} {P : List Lexeme → Prop}
    (hc : c.lexemes = l :: mid.lexemes) (h : mid.Spells after fun us => P (l :: us)) :
    c.Spells after P := by
  obtain ⟨us, hus, hP⟩ := h
  refine ⟨l :: us, ?_, hP⟩
  rw [hc, hus, List.cons_append]

/-- Nothing was taken. -/
theorem Spells.nil {c : Cursor} {P : List Lexeme → Prop} (h : P []) : c.Spells c P :=
  ⟨[], rfl, h⟩

@[simp] theorem lexemes_mk_nil (n depth : Nat) : lexemes ⟨[], n, depth⟩ = [] := rfl

@[simp] theorem lexemes_mk_cons (t : Token) (ts : List Token) (n depth : Nat) :
    lexemes ⟨t :: ts, n, depth⟩ = t.lexeme :: lexemes ⟨ts, n, depth⟩ := rfl

/-- The token in front, and the cursor behind it, of a cursor whose first lexeme is known. -/
theorem eq_of_lexemes {c : Cursor} {l : Lexeme} {ls : List Lexeme} (h : c.lexemes = l :: ls) :
    ∃ t rest, c = { c with rest := t :: rest } ∧ t.lexeme = l ∧
      lexemes { c with rest } = ls := by
  obtain ⟨_ | ⟨t, rest⟩, nextId, fuzzDepth⟩ := c
  · cases h
  · simp only [lexemes_mk_cons, List.cons.injEq] at h
    exact ⟨t, rest, rfl, h.1, h.2⟩

/-! ## Taking one token -/

theorem gives_take (fin : Position) (wanted : Wanted) (c : Cursor) :
    (c.take fin wanted).Gives fun t after => c.lexemes = t.lexeme :: after.lexemes := by
  obtain ⟨_ | ⟨t, rest⟩, nextId, fuzzDepth⟩ := c
  · trivial
  · rfl

theorem meets_take (fin : Position) (wanted : Wanted) {c : Cursor} {l : Lexeme} {ls : List Lexeme}
    (h : c.lexemes = l :: ls) :
    (c.take fin wanted).Meets True fun t after => t.lexeme = l ∧ after.lexemes = ls := by
  obtain ⟨t, rest, hc, ht, hr⟩ := eq_of_lexemes h
  rw [hc]
  exact ⟨trivial, ht, hr⟩

/-- Taking the token in front does not depend on what is wanted. -/
theorem take_of_lexemes (fin : Position) {c : Cursor} {l : Lexeme} {ls : List Lexeme}
    (h : c.lexemes = l :: ls) :
    ∃ t after s, (∀ wanted, c.take fin wanted = .parsed t after s) ∧ t.lexeme = l ∧
      after.lexemes = ls := by
  obtain ⟨_ | ⟨t, rest⟩, nextId, fuzzDepth⟩ := c
  · cases h
  · simp only [lexemes_mk_cons, List.cons.injEq] at h
    exact ⟨t, ⟨rest, nextId, fuzzDepth⟩, Nat.lt_succ_self _, fun _ => rfl, h⟩

theorem mark_of_terminal {l : Lexeme} {m : Mark} (h : l.terminal = .mark m) : l = .mark m := by
  cases l <;> cases h
  rfl

theorem gives_expect (fin : Position) (m : Mark) (c : Cursor) :
    (c.expect fin (.mark m)).Gives fun _ after => c.lexemes = .mark m :: after.lexemes := by
  refine (gives_take fin _ c).bind ?_
  intro t after s h
  split
  · next ht => rwa [mark_of_terminal ht] at h
  · trivial

theorem meets_expect (fin : Position) {m : Mark} {c : Cursor} {ls : List Lexeme}
    (h : c.lexemes = .mark m :: ls) :
    (c.expect fin (.mark m)).Meets True fun _ after => after.lexemes = ls := by
  refine (meets_take fin _ h).bind_true ?_
  rintro t after s ⟨ht, ha⟩
  rw [if_pos (by rw [ht]; rfl)]
  exact ⟨trivial, ha⟩

theorem gives_integer (fin : Position) (c : Cursor) :
    (c.integer fin).Gives fun r after => c.lexemes = .integer r.1 :: after.lexemes := by
  refine (gives_take fin _ c).bind ?_
  intro t after s h
  split
  · next v ht => rwa [ht] at h
  · trivial

theorem meets_integer (fin : Position) {c : Cursor} {v : UInt64} {ls : List Lexeme}
    (h : c.lexemes = .integer v :: ls) :
    (c.integer fin).Meets True fun r after => r.1 = v ∧ after.lexemes = ls := by
  refine (meets_take fin _ h).bind_true ?_
  rintro t after s ⟨ht, ha⟩
  rw [ht]
  exact ⟨trivial, rfl, ha⟩

theorem gives_ident (fin : Position) (c : Cursor) :
    (c.ident fin).Gives fun r after => c.lexemes = .ident r.1 :: after.lexemes := by
  refine (gives_take fin _ c).bind ?_
  intro t after s h
  split
  · next x ht => rwa [ht] at h
  · trivial

theorem meets_ident (fin : Position) {c : Cursor} {x : String} {ls : List Lexeme}
    (h : c.lexemes = .ident x :: ls) :
    (c.ident fin).Meets True fun r after => r.1 = x ∧ after.lexemes = ls := by
  refine (meets_take fin _ h).bind_true ?_
  rintro t after s ⟨ht, ha⟩
  rw [ht]
  exact ⟨trivial, rfl, ha⟩

/-! ## Passing a mark -/

theorem lexemes_of_pass? {m : Mark} {c after : Cursor}
    {s : after.rest.length < c.rest.length}
    (h : c.pass? (.mark m) = some ⟨after, s⟩) : c.lexemes = .mark m :: after.lexemes := by
  obtain ⟨_ | ⟨t, rest⟩, nextId, fuzzDepth⟩ := c
  · cases h
  · simp only [pass?] at h
    split at h
    · next ht =>
      cases h
      rw [lexemes_mk_cons, mark_of_terminal ht]
    · cases h

theorem pass?_eq_some {m : Mark} {c : Cursor} {ls : List Lexeme}
    (h : c.lexemes = .mark m :: ls) :
    ∃ after s, c.pass? (.mark m) = some ⟨after, s⟩ ∧ after.lexemes = ls := by
  obtain ⟨_ | ⟨t, rest⟩, nextId, fuzzDepth⟩ := c
  · cases h
  · simp only [lexemes_mk_cons, List.cons.injEq] at h
    have ht : t.lexeme.terminal = .mark m := by rw [h.1]; rfl
    exact ⟨⟨rest, nextId, fuzzDepth⟩, _, by simp only [pass?]; rw [if_pos ht], h.2⟩

theorem pass?_eq_none {m : Mark} {c : Cursor} (h : c.lexemes.head? ≠ some (.mark m)) :
    c.pass? (.mark m) = none := by
  obtain ⟨_ | ⟨t, rest⟩, nextId, fuzzDepth⟩ := c
  · rfl
  · simp only [pass?]
    refine if_neg fun ht => h ?_
    rw [lexemes_mk_cons, mark_of_terminal ht]
    rfl

end Cursor

end ScriptFuzz
