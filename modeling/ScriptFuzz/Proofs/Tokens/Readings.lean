import ScriptFuzz.Proofs.Tokens.Lookahead

/-!
# Readings and what they are read from

Taking a token and looking at it are answered from the same characters of the source.

- `Lexer.Reads`: a call reads a token from the characters in front of a lexer.
- `Lexer.reads_of_starts`: what begins a text is read from the front.
- `Lexer.Returned`: a token of a source was just returned. It was read from a slice of the source,
  and its text is the one with its number.
- `Lexer.Places`: what every call preserves (`Places.call`), and so any calls (`Places.after`).
- `Lexer.returned_of_call`: every token that is returned was read so, whatever was called before.
-/

namespace ScriptFuzz

/-- A text has the number that it was given. -/
theorem Names.get?_intern (names : Names) (text : String) :
    (names.intern text).2.get? (names.intern text).1 = some text := by
  unfold intern
  cases hindex : names.entries.idxOf? text with
  | some i =>
    rw [Array.idxOf?_eq_map_finIdxOf?_val] at hindex
    obtain ⟨i, hi, rfl⟩ := Option.map_eq_some_iff.1 hindex
    obtain ⟨hentry, -⟩ := Array.finIdxOf?_eq_some_iff.1 hi
    exact (Array.getElem?_eq_getElem i.isLt).trans (congrArg some hentry)
  | none => exact Array.getElem?_push_size

namespace Lexer

variable {lexer : Lexer} {t : Token} {name : Option Nat} {stop : Position} {rest : List Char}
  {source : String}

/-! ## One call -/

/-- A call reads a lexeme from the characters `word` in front of the lexer. The text `more` is left
behind them, and the text of the lexeme is the one with its number. -/
structure Reads (lexer : Lexer) (c : Call) (word more : List Char) (l : Lexeme) : Prop where
  text : lexer.rest = word ++ more
  rest : (lexer.call c).2.rest = more
  pos : (lexer.call c).2.pos = lexer.pos.afterAll word
  reading : ∃ name, (lexer.call c).1 = .token ⟨l, lexer.pos⟩ name ∧
    name.bind (lexer.call c).2.names.get? = l.text?

theorem scan_of_next (hnext : Token.next lexer.pos lexer.rest = .inr (t, stop, rest)) :
    ∃ name, lexer.scan.1 = .token t name ∧ lexer.scan.2.rest = rest ∧ lexer.scan.2.pos = stop ∧
      name.bind lexer.scan.2.names.get? = t.lexeme.text? := by
  obtain ⟨lexeme, p⟩ := t
  rw [scan, hnext]
  cases lexeme with
  | string text => exact ⟨_, rfl, rfl, rfl, lexer.names.get?_intern text⟩
  | ident text => exact ⟨_, rfl, rfl, rfl, lexer.names.get?_intern text⟩
  | _ => exact ⟨none, rfl, rfl, rfl, rfl⟩

/-- If nothing has been looked at, then the next token is returned, taken or not. -/
theorem call_of_next (hahead : lexer.ahead = none)
    (hnext : Token.next lexer.pos lexer.rest = .inr (t, stop, rest)) (c : Call) :
    ∃ name, (lexer.call c).1 = .token t name ∧ (lexer.call c).2.rest = rest ∧
      (lexer.call c).2.pos = stop ∧ name.bind (lexer.call c).2.names.get? = t.lexeme.text? := by
  have hget : lexer.get = lexer.scan := by rw [get, hahead]
  have hscan := scan_of_next hnext
  rw [← hget] at hscan
  cases c with
  | get => exact hscan
  | peek => exact hscan

/-- A token that begins the text is read from its characters. -/
theorem reads_of_starts {text : List Char} {l : Lexeme} (hahead : lexer.ahead = none)
    (htext : lexer.rest = text) (h : Scan.Starts text l rest) (c : Call) :
    ∃ word, lexer.Reads c word rest l := by
  obtain ⟨d, ds, rfl, hskip, htoken⟩ := h
  obtain ⟨rfl, rfl⟩ := htoken lexer.pos
  obtain ⟨word, hword, hstop⟩ := Scan.takes_token lexer.pos d ds
  have hnext : Token.next lexer.pos lexer.rest =
      .inr (⟨(Scan.token lexer.pos d ds).lexeme, lexer.pos⟩, (Scan.token lexer.pos d ds).stop,
        (Scan.token lexer.pos d ds).rest) := by
    rw [Token.next, htext, hskip]
  obtain ⟨name, hreading, hrest, hpos, hname⟩ := call_of_next hahead hnext c
  exact ⟨word, htext.trans hword, hrest, hpos.trans hstop, name, hreading, hname⟩

/-- If the characters of the token are known, then it is read from these. -/
theorem reads_of_starts_append {word : List Char} {l : Lexeme} (hahead : lexer.ahead = none)
    (htext : lexer.rest = word ++ rest) (h : Scan.Starts (word ++ rest) l rest) (c : Call) :
    lexer.Reads c word rest l := by
  obtain ⟨word', hread⟩ := reads_of_starts hahead htext h c
  have hword : word' = word := List.append_cancel_right (hread.text.symm.trans htext)
  exact hword ▸ hread

/-! ## All calls -/

/-- A lexer of a source has just returned a token: it was read from a slice `s` behind the text
`before`, and it is behind this slice that the lexer goes on. -/
structure Returned (source : String) (lexer : Lexer) (t : Token) (name : Option Nat)
    (before : List Char) (s : Slice) : Prop where
  text : source.toList = before ++ s.text ++ lexer.rest
  pos : lexer.pos = .behind (before ++ s.text)
  token : s.token = t
  read : s.Read before lexer.rest
  name : name.bind lexer.names.get? = t.lexeme.text?

/-- The text that a lexer has not looked at ends a source, and the lexer knows its place. -/
def Within (source : String) (lexer : Lexer) : Prop :=
  ∃ before, source.toList = before ++ lexer.rest ∧ lexer.pos = .behind before

/-- What holds of a lexer that reads a source: it is within the source, and if it has looked at a
token then this was just returned. -/
structure Places (source : String) (lexer : Lexer) : Prop where
  within : Within source lexer
  ahead : ∀ t name, lexer.ahead = some (.token t name) →
    ∃ before s, Returned source lexer t name before s

theorem Returned.within {before : List Char} {s : Slice}
    (h : Returned source lexer t name before s) : Within source lexer :=
  ⟨_, h.text, h.pos⟩

theorem Within.scan (h : Within source lexer) : Within source lexer.scan.2 ∧
    ∀ t name, lexer.scan.1 = .token t name →
      ∃ before s, Returned source lexer.scan.2 t name before s := by
  obtain ⟨before, htext, hpos⟩ := h
  cases hnext : Token.next lexer.pos lexer.rest with
  | inl fin =>
    rw [scan_of_end hnext]
    rw [hpos] at hnext
    have hfin : fin = .behind (before ++ lexer.rest) := by
      rcases Token.next_cases before lexer.rest with ⟨-, hend⟩ | ⟨s, rest, -, -, htoken⟩
      · exact Sum.inl.inj (hnext.symm.trans hend)
      · cases hnext.symm.trans htoken
    refine ⟨⟨_, htext.trans (List.append_nil _).symm, hfin⟩, ?_⟩
    intro t name ht
    cases ht
  | inr read =>
    obtain ⟨t, stop, rest⟩ := read
    obtain ⟨name, hreading, hrest, hstop, hname⟩ := scan_of_next hnext
    rw [hpos] at hnext
    obtain ⟨s, htoken, hs, hplace, hread⟩ := Token.exists_slice hnext
    have hreturned : Returned source lexer.scan.2 t name before s := by
      refine ⟨?_, hstop.trans hplace, htoken, hrest ▸ hread, hname⟩
      rw [htext, hs, hrest, List.append_assoc]
    refine ⟨hreturned.within, ?_⟩
    intro t' name' ht
    cases hreading.symm.trans ht
    exact ⟨before, s, hreturned⟩

theorem Places.get (h : Places source lexer) : Within source lexer.get.2 ∧
    ∀ t name, lexer.get.1 = .token t name →
      ∃ before s, Returned source lexer.get.2 t name before s := by
  rw [Lexer.get]
  cases hahead : lexer.ahead with
  | none => exact h.within.scan
  | some reading =>
    refine ⟨h.within, ?_⟩
    intro t name ht
    obtain ⟨before, s, hs⟩ := h.ahead t name (hahead.trans (congrArg some ht))
    exact ⟨before, s, hs.text, hs.pos, hs.token, hs.read, hs.name⟩

/-- A call keeps a lexer in its source, and a token that it returns was just read there. -/
theorem Places.call (h : Places source lexer) (c : Call) :
    Places source (lexer.call c).2 ∧ ∀ t name, (lexer.call c).1 = .token t name →
      ∃ before s, Returned source (lexer.call c).2 t name before s := by
  obtain ⟨hwithin, hreturned⟩ := h.get
  cases c with
  | get =>
    refine ⟨⟨hwithin, ?_⟩, hreturned⟩
    intro t name hahead
    cases (ahead_get lexer).symm.trans hahead
  | peek =>
    -- the lexer behind a look differs from the one behind a taken reading only in what is ahead
    have hpeek : ∀ t name, lexer.get.1 = .token t name →
        ∃ before s, Returned source lexer.peek.2 t name before s := by
      intro t name ht
      obtain ⟨before, s, hs⟩ := hreturned t name ht
      exact ⟨before, s, hs.text, hs.pos, hs.token, hs.read, hs.name⟩
    refine ⟨⟨hwithin, ?_⟩, hpeek⟩
    intro t name hahead
    exact hpeek t name (Option.some.inj hahead)

theorem Places.after (h : Places source lexer) (calls : List Call) :
    Places source (lexer.after calls) :=
  preserved_after (P := Places source) (fun _ c h => (h.call c).1) h calls

/-- Whenever a lexer of a source returns a token, the token was just read there. -/
theorem returned_of_call {calls : List Call} {c : Call}
    (ht : (((ofSource source).after calls).call c).1 = .token t name) :
    ∃ before s, Returned source (((ofSource source).after calls).call c).2 t name before s := by
  have hstart : Places source (ofSource source) := by
    refine ⟨⟨[], rfl, rfl⟩, ?_⟩
    intro t name hahead
    cases hahead
  exact ((hstart.after calls).call c).2 t name ht

end Lexer

end ScriptFuzz
