import ScriptFuzz.Proofs.Tokens.Readings

/-!
# String literals

A string literal stands for a text, and every text without double quotes and NULs has a literal.

- `Literal.Letter`, `Literal.Body`, `IsStringLiteral`: how a text is written between double quotes.
- `exists_literal_iff`: the texts that can be written.
- `Scan.string_of_body`, `Scan.closed_string`: what is read behind a quote.
- `string_literals_exact`: a literal is read as its text, and nothing else is read as a string.
-/

namespace ScriptFuzz

/-! ## Writing -/

namespace Literal

/-- The writings of a character. A tab may stand for itself. -/
inductive Letter : Char → List Char → Prop
  | plain {c : Char} (hquote : c ≠ '"') (hbackslash : c ≠ '\\')
      (hcontrol : ¬(c = '\n' ∨ c = '\r' ∨ c = '\x00')) : Letter c [c]
  | backslash : Letter '\\' ['\\', '\\']
  | newline : Letter '\n' ['\\', 'n']
  | carriageReturn : Letter '\r' ['\\', 'r']
  | tab : Letter '\t' ['\\', 't']

/-- The writings of a text, one character after the other. -/
inductive Body : List Char → List Char → Prop
  | nil : Body [] []
  | cons {c : Char} {word cs body : List Char} (hc : Letter c word) (h : Body cs body) :
      Body (c :: cs) (word ++ body)

theorem exists_letter_iff {c : Char} : (∃ word, Letter c word) ↔ c ≠ '"' ∧ c ≠ '\x00' := by
  constructor
  · rintro ⟨word, h⟩
    cases h with
    | plain hquote _ hcontrol =>
      refine ⟨hquote, ?_⟩
      rintro rfl
      exact hcontrol (.inr (.inr rfl))
    | _ => decide
  · rintro ⟨hquote, hnul⟩
    by_cases hbackslash : c = '\\'
    · exact hbackslash ▸ ⟨_, .backslash⟩
    by_cases hnewline : c = '\n'
    · exact hnewline ▸ ⟨_, .newline⟩
    by_cases hreturn : c = '\r'
    · exact hreturn ▸ ⟨_, .carriageReturn⟩
    · refine ⟨[c], .plain hquote hbackslash ?_⟩
      rintro (h | h | h)
      · exact hnewline h
      · exact hreturn h
      · exact hnul h

theorem exists_body_iff {cs : List Char} : (∃ body, Body cs body) ↔ '"' ∉ cs ∧ '\x00' ∉ cs := by
  induction cs with
  | nil => exact ⟨fun _ => ⟨List.not_mem_nil, List.not_mem_nil⟩, fun _ => ⟨[], .nil⟩⟩
  | cons c cs ih =>
    rw [List.mem_cons, List.mem_cons, not_or, not_or]
    constructor
    · rintro ⟨_, hbody⟩
      cases hbody with
      | @cons _ word _ body hc h =>
        obtain ⟨hquote, hnul⟩ := exists_letter_iff.1 ⟨word, hc⟩
        obtain ⟨hquotes, hnuls⟩ := ih.1 ⟨body, h⟩
        exact ⟨⟨Ne.symm hquote, hquotes⟩, Ne.symm hnul, hnuls⟩
    · rintro ⟨⟨hquote, hquotes⟩, hnul, hnuls⟩
      obtain ⟨word, hc⟩ := exists_letter_iff.2 ⟨Ne.symm hquote, Ne.symm hnul⟩
      obtain ⟨body, h⟩ := ih.2 ⟨hquotes, hnuls⟩
      exact ⟨word ++ body, .cons hc h⟩

end Literal

open Literal

/-- A text between double quotes. -/
def IsStringLiteral (text : String) (word : List Char) : Prop :=
  ∃ body, Body text.toList body ∧ word = '"' :: body ++ ['"']

/-- The texts that can be written as a literal are those without double quotes and NULs. -/
theorem exists_literal_iff {text : String} :
    (∃ word, IsStringLiteral text word) ↔ '"' ∉ text.toList ∧ '\x00' ∉ text.toList := by
  rw [← exists_body_iff]
  constructor
  · rintro ⟨-, body, h, rfl⟩
    exact ⟨body, h⟩
  · rintro ⟨body, h⟩
    exact ⟨_, body, h, rfl⟩

/-! ## Reading -/

namespace Scan

variable {c e : Char} {cs word body more read : List Char}

/-- The writings of two characters are the escapes. -/
theorem letter_of_unescape (h : unescape? e = some c) : Letter c ['\\', e] := by
  unfold unescape? at h
  split at h <;> cases h
  · exact .backslash
  · exact .newline
  · exact .carriageReturn
  · exact .tab

/-- A character is read from any of its writings. -/
theorem string_letter (hc : Letter c word) (read : List Char) (p : Position) (cs : List Char) :
    string read p (word ++ cs) = string (c :: read) (p.afterAll word) cs := by
  cases hc with
  | plain hquote hbackslash hcontrol =>
    rw [List.singleton_append, string.eq_def]
    dsimp only
    rw [if_neg hquote, if_neg hcontrol, if_neg hbackslash]
    rfl
  | _ => rfl

/-- What is written between quotes is read up to the second quote. -/
theorem string_of_body (h : Body cs body) (read : List Char) (p : Position) (more : List Char) :
    string read p (body ++ '"' :: more) =
      ⟨.string (String.ofList (read.reverse ++ cs)), (p.afterAll body).after '"', more⟩ := by
  induction h generalizing read p with
  | nil =>
    rw [List.nil_append, string.eq_def, List.append_nil]
    exact if_pos rfl
  | @cons c word cs body hc _ ih =>
    rw [List.append_assoc, string_letter hc, ih, List.reverse_cons, List.append_assoc,
      List.singleton_append, Position.afterAll_append]

/-- What was read from the text `cs` behind a quote and the characters `read`, last one first, is
the rest of a literal, or it is malformed. -/
def Closed (read cs : List Char) (s : Scanned) : Prop :=
  (∃ fault, s.lexeme = .malformed fault) ∨
    ∃ text body, Body text body ∧ cs = body ++ '"' :: s.rest ∧
      s.lexeme = .string (String.ofList (read.reverse ++ text))

theorem Closed.letter {s : Scanned} (hc : Letter c word) (h : Closed (c :: read) cs s) :
    Closed read (word ++ cs) s := by
  rcases h with hfault | ⟨text, body, hbody, hcs, hlexeme⟩
  · exact .inl hfault
  · refine .inr ⟨c :: text, word ++ body, .cons hc hbody, ?_, ?_⟩
    · rw [hcs, List.append_assoc]
    · rw [hlexeme, List.reverse_cons, List.append_assoc, List.singleton_append]

theorem closed_string (read : List Char) (p : Position) (cs : List Char) :
    Closed read cs (string read p cs) := by
  fun_induction string read p cs with
  | case2 read p cs => exact .inr ⟨[], [], .nil, rfl, by rw [List.append_nil]⟩
  | case5 read p e cs d hescape _ _ ih => exact ih.letter (letter_of_unescape hescape)
  | case7 read p c cs hquote hcontrol hbackslash ih =>
    exact ih.letter (.plain hquote hbackslash hcontrol)
  | _ => exact .inl ⟨_, rfl⟩

/-- A quote begins a string. -/
theorem token_quote (p : Position) (cs : List Char) :
    token p '"' cs = string [] (p.after '"') cs := rfl

/-- A literal is read as its text. -/
theorem starts_literal {text : String} (h : IsStringLiteral text word) (more : List Char) :
    Starts (word ++ more) (.string text) more := by
  obtain ⟨body, hbody, rfl⟩ := h
  refine ⟨'"', body ++ '"' :: more, by simp, ?_, ?_⟩
  · intro p
    rw [List.cons_append, List.cons_append]
    exact skip_cons (by decide) (.inl (by decide)) p
  · intro p
    rw [token_quote, string_of_body hbody, List.reverse_nil, List.nil_append, String.ofList_toList]
    exact ⟨rfl, rfl⟩

/-- Only a quote begins a string. -/
theorem eq_quote_of_token {p : Position} {text : String}
    (h : (token p c cs).lexeme = .string text) : c = '"' := by
  have htext : (token p c cs).lexeme.text? = some text := congrArg Lexeme.text? h
  rw [token] at h htext
  split at h
  · -- a word is a keyword or an identifier
    unfold word at h
    dsimp only at h
    cases hk : Keyword.ofSpelling? (String.ofList ((c :: cs).takeWhile isWordChar)) with
    | some k => rw [hk] at h; cases h
    | none => rw [hk] at h; cases h
  next halpha =>
  rw [if_neg halpha] at htext
  split at htext
  · cases (text?_number p (c :: cs)).symm.trans htext
  split at htext
  · next hquote => exact hquote
  · cases (text?_mark p c cs).symm.trans htext

end Scan

/-! ## Sources -/

namespace Slice.Read

variable {s : Slice} {before rest : List Char}

/-- Only what begins with a quote is read as a string. -/
theorem head?_of_string {text : String} (h : s.Read before rest)
    (ht : s.token.lexeme = .string text) : s.word.head? = some '"' := by
  obtain ⟨c, cs, hword, hread⟩ := h.token
  have hstring : (Scan.token s.token.pos c (cs ++ rest)).lexeme = .string text := by rw [hread, ht]
  rw [hword, Scan.eq_quote_of_token hstring, List.head?_cons]

/-- What begins with a quote is read as a string if it is a literal, and it is malformed if not. -/
theorem string_or_malformed (h : s.Read before rest) (hquote : s.word.head? = some '"') :
    (∃ text, s.token.lexeme = .string text ∧ IsStringLiteral text s.word) ∨
      ∃ fault, s.token.lexeme = .malformed fault := by
  obtain ⟨c, cs, hword, hread⟩ := h.token
  rw [hword, List.head?_cons, Option.some.injEq] at hquote
  subst hquote
  rw [Scan.token_quote] at hread
  rcases Scan.closed_string [] (s.token.pos.after '"') (cs ++ rest) with
    ⟨fault, hfault⟩ | ⟨text, body, hbody, hcs, hstring⟩
  · rw [hread] at hfault
    exact .inr ⟨fault, hfault⟩
  · rw [hread] at hcs hstring
    refine .inl ⟨_, hstring, body, ?_, ?_⟩
    · rwa [List.reverse_nil, List.nil_append, String.toList_ofList]
    · have hbehind : cs ++ rest = body ++ ['"'] ++ rest := by
        rw [hcs, List.append_assoc, List.singleton_append]
      rw [hword, List.append_cancel_right hbehind, List.cons_append]

end Slice.Read

/-- Exactly the texts without double quotes and NULs have string literals. A literal in front of a
lexer is read as one string with its text, whatever follows. And whenever a lexer of any source
returns a token, taken or looked at: if it is a string, then what it was read from is a literal of
its text; if what it was read from begins with a quote and it is no string, then it is malformed and
has its place at the quote. -/
theorem string_literals_exact :
    (∀ text : String,
      (∃ word, IsStringLiteral text word) ↔ '"' ∉ text.toList ∧ '\x00' ∉ text.toList) ∧
    (∀ (text : String) (word more : List Char) (lexer : Lexer) (c : Lexer.Call),
      IsStringLiteral text word → lexer.ahead = none → lexer.rest = word ++ more →
        lexer.Reads c word more (.string text)) ∧
    ∀ (source : String) (calls : List Lexer.Call) (c : Lexer.Call) (t : Token) (name : Option Nat),
      (((Lexer.ofSource source).after calls).call c).1 = .token t name →
        ∃ before s,
          Lexer.Returned source (((Lexer.ofSource source).after calls).call c).2 t name before s ∧
          (∀ text, t.lexeme = .string text → IsStringLiteral text s.word) ∧
          (s.word.head? = some '"' → (∃ text, t.lexeme = .string text) ∨
            ∃ fault, t = ⟨.malformed fault, .behind (before ++ s.gap)⟩) := by
  refine ⟨fun text => exists_literal_iff, ?_, ?_⟩
  · intro text word more lexer c hliteral hahead htext
    exact Lexer.reads_of_starts_append hahead htext (Scan.starts_literal hliteral more) c
  · intro source calls c t name ht
    obtain ⟨before, s, hs⟩ := Lexer.returned_of_call ht
    have hpos := hs.read.sound.pos
    have hquote := hs.read.string_or_malformed
    rw [hs.token] at hpos hquote
    refine ⟨before, s, hs, ?_, ?_⟩
    · intro text htext
      have hhead := hs.read.head?_of_string (hs.token ▸ htext)
      rcases hquote hhead with ⟨text', htext', hliteral⟩ | ⟨fault, hfault⟩
      · cases htext.symm.trans htext'
        exact hliteral
      · cases htext.symm.trans hfault
    · intro hhead
      rcases hquote hhead with ⟨text, htext, -⟩ | ⟨fault, hfault⟩
      · exact .inl ⟨text, htext⟩
      · refine .inr ⟨fault, ?_⟩
        rw [← hfault, ← hpos]

/-- A raw tab and an escaped backslash are read between quotes; a quote that is not closed is
malformed. -/
theorem string_literals_exact_tab :
    (∃ word, IsStringLiteral "a\t\\" word) ∧
      (Lexer.ofSource "\"a\t\\\\\";").Reads .get ['"', 'a', '\t', '\\', '\\', '"'] [';']
        (.string "a\t\\") ∧
      ∃ before s, Lexer.Returned "x \"a" (((Lexer.ofSource "x \"a").after [.get]).call .peek).2
        ⟨.malformed .unterminatedString, ⟨1, 3⟩⟩ none before s := by
  obtain ⟨hexists, hread, hreturned⟩ := string_literals_exact
  have hliteral : IsStringLiteral "a\t\\" ['"', 'a', '\t', '\\', '\\', '"'] :=
    ⟨_, .cons (.plain (by decide) (by decide) (by decide)) (.cons
      (.plain (by decide) (by decide) (by decide)) (.cons .backslash .nil)), rfl⟩
  obtain ⟨before, s, hs, -⟩ := hreturned "x \"a" [.get] .peek _ _ rfl
  exact ⟨(hexists _).2 (by decide), hread _ _ _ _ _ hliteral rfl rfl, before, s, hs⟩

end ScriptFuzz
