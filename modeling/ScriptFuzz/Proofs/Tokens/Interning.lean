import ScriptFuzz.Proofs.Tokens.Strings

/-!
# Numbers of texts

A lexer numbers the texts of the identifiers and strings that it finds. A number stays that of its
text, whatever is read later.

- `Names.Grows`: a table that was appended to. A number stays that of its text (`Grows.get?`).
- `Names.Holds`: a table holds the texts of some readings, each once. So it does with one more
  reading (`Holds.known`, `Holds.intern`).
- `Lexer.answers`: what some calls return, whether it is taken or looked at.
- `Lexer.Interned`: what every call preserves (`Interned.call`), and so any calls
  (`Interned.after`).
- `Lexer.Numbering`, `Lexer.numbering_stable`: what is promised of the numbers that a lexer of a
  source gives.
-/

namespace ScriptFuzz

/-- The text of what was read, if it is an identifier or a string. -/
def Reading.text? : Reading → Option String
  | token t _ => t.lexeme.text?
  | endOfInput _ => none

/-! ## Tables -/

namespace Names

variable {names later : Names} {text : String} {returned : List Reading} {r : Reading} {i j : Nat}

/-- A table is followed by one with the same texts, and maybe more texts behind them. -/
def Grows (names later : Names) : Prop := names.entries.toList <+: later.entries.toList

theorem get?_eq (names : Names) (i : Nat) : names.get? i = names.entries.toList[i]? :=
  Array.getElem?_toList.symm

/-- A number stays that of its text. -/
theorem Grows.get? (h : names.Grows later) (hi : names.get? i = some text) :
    later.get? i = some text := by
  rw [get?_eq] at hi ⊢
  obtain ⟨more, hmore⟩ := h
  rw [← hmore, List.getElem?_append_left (List.getElem?_eq_some_iff.1 hi).1, hi]

/-- Where no text stands twice, a text has one number. -/
theorem eq_of_get? (hdistinct : names.entries.toList.Nodup) (hi : names.get? i = some text)
    (hj : names.get? j = some text) : i = j := by
  rw [get?_eq] at hi hj
  exact (List.getElem?_inj (List.getElem?_eq_some_iff.1 hi).1 hdistinct).1 (hi.trans hj.symm)

/-- A text that is known gets no second number; a new one is appended. -/
theorem intern_cases (names : Names) (text : String) :
    (text ∈ names.entries.toList ∧ (names.intern text).2 = names) ∨
      (text ∉ names.entries.toList ∧
        (names.intern text).2.entries.toList = names.entries.toList ++ [text]) := by
  unfold intern
  cases hindex : names.entries.idxOf? text with
  | some i =>
    have hsome : (names.entries.idxOf? text).isSome := Option.isSome_of_eq_some hindex
    exact .inl ⟨Array.mem_toList_iff.2 (Array.isSome_idxOf?.1 hsome), rfl⟩
  | none =>
    refine .inr ⟨?_, Array.toList_push⟩
    rw [Array.mem_toList_iff]
    exact Array.idxOf?_eq_none_iff.1 hindex

theorem grows_intern (names : Names) (text : String) : names.Grows (names.intern text).2 := by
  rcases names.intern_cases text with ⟨-, hsame⟩ | ⟨-, happended⟩
  · rw [hsame]
    exact List.prefix_refl _
  · exact ⟨[text], happended.symm⟩

/-- A table holds the texts of some readings, each once and in the order of their first appearance,
and each reading has the number of its text. -/
structure Holds (names : Names) (returned : List Reading) : Prop where
  entries : names.entries.toList = (returned.filterMap Reading.text?).eraseDups
  distinct : names.entries.toList.Nodup
  numbers : ∀ r ∈ returned, ∀ text, r.text? = some text →
    ∃ i, r.name? = some i ∧ names.get? i = some text

theorem holds_nothing : Holds {} [] where
  entries := rfl
  distinct := List.nodup_nil
  numbers := by
    intro r hr
    cases hr

theorem Holds.mem_iff (h : names.Holds returned) :
    text ∈ names.entries.toList ↔ text ∈ returned.filterMap Reading.text? := by
  rw [h.entries, List.mem_eraseDups]

/-- Readings with texts have the same number exactly if they have the same text. -/
theorem Holds.name?_eq_iff (h : names.Holds returned) {r' : Reading} (hr : r ∈ returned)
    (hr' : r' ∈ returned) (hsome : r.text?.isSome) (hsome' : r'.text?.isSome) :
    r.name? = r'.name? ↔ r.text? = r'.text? := by
  obtain ⟨text, htext⟩ := Option.isSome_iff_exists.1 hsome
  obtain ⟨text', htext'⟩ := Option.isSome_iff_exists.1 hsome'
  obtain ⟨i, hname, hi⟩ := h.numbers r hr text htext
  obtain ⟨j, hname', hj⟩ := h.numbers r' hr' text' htext'
  rw [htext, htext', hname, hname', Option.some.injEq, Option.some.injEq]
  constructor
  · rintro rfl
    exact Option.some.inj (hi.symm.trans hj)
  · rintro rfl
    exact eq_of_get? h.distinct hi hj

/-- Of a text that stands behind others only its first occurrence counts. -/
theorem eraseDups_concat (texts : List String) (text : String) :
    (texts ++ [text]).eraseDups =
      if text ∈ texts then texts.eraseDups else texts.eraseDups ++ [text] := by
  rw [List.eraseDups_append]
  split
  · next hmem => simp [List.removeAll, hmem]
  · next hnew => simp [List.removeAll, hnew, List.eraseDups_cons]

/-- A reading without a text, or with a text that has its number already, leaves the table as it
is. -/
theorem Holds.known (h : names.Holds returned)
    (hr : ∀ text, r.text? = some text → ∃ i, r.name? = some i ∧ names.get? i = some text) :
    names.Holds (returned ++ [r]) where
  entries := by
    rw [List.filterMap_append, h.entries]
    cases htext : r.text? with
    | none => rw [List.filterMap_cons_none htext, List.filterMap_nil, List.append_nil]
    | some text =>
      obtain ⟨i, -, hi⟩ := hr text htext
      rw [get?_eq] at hi
      rw [List.filterMap_cons_some htext, List.filterMap_nil, eraseDups_concat,
        if_pos (h.mem_iff.1 (List.mem_of_getElem? hi))]
  distinct := h.distinct
  numbers := by
    intro r' hr'
    rcases List.mem_append.1 hr' with hr' | hr'
    · exact h.numbers r' hr'
    · rwa [List.mem_singleton.1 hr']

/-- A reading whose text is given a number is held. -/
theorem Holds.intern (h : names.Holds returned) (htext : r.text? = some text)
    (hname : r.name? = some (names.intern text).1) :
    (names.intern text).2.Holds (returned ++ [r]) := by
  have hr : ∀ text', r.text? = some text' →
      ∃ i, r.name? = some i ∧ (names.intern text).2.get? i = some text' := by
    intro text' htext'
    cases htext.symm.trans htext'
    exact ⟨_, hname, names.get?_intern text⟩
  rcases names.intern_cases text with ⟨-, hsame⟩ | ⟨hnew, happended⟩
  · rw [hsame] at hr ⊢
    exact h.known hr
  refine ⟨?_, ?_, ?_⟩
  · rw [happended, List.filterMap_append, List.filterMap_cons_some htext, List.filterMap_nil,
      eraseDups_concat, if_neg (mt h.mem_iff.2 hnew), h.entries]
  · rw [happended, List.nodup_append]
    refine ⟨h.distinct, List.pairwise_singleton _ text, ?_⟩
    rintro text' hmem _ hlast rfl
    exact hnew (List.mem_singleton.1 hlast ▸ hmem)
  · intro r' hr'
    rcases List.mem_append.1 hr' with hr' | hr'
    · intro text' htext'
      obtain ⟨i, hname', hi⟩ := h.numbers r' hr' text' htext'
      exact ⟨i, hname', (names.grows_intern text).get? hi⟩
    · rwa [List.mem_singleton.1 hr']

end Names

/-! ## Calls -/

namespace Lexer

variable {lexer : Lexer} {returned : List Reading} {r : Reading} {source : String}

/-- What some calls return. -/
def answers (lexer : Lexer) : List Call → List Reading
  | [] => []
  | c :: calls => (lexer.call c).1 :: (lexer.call c).2.answers calls

/-- Every reading was returned by some call. -/
theorem exists_call_of_mem_answers {calls : List Call} (hr : r ∈ lexer.answers calls) :
    ∃ before c, ((lexer.after before).call c).1 = r := by
  induction calls generalizing lexer with
  | nil => cases hr
  | cons c calls ih =>
    rcases List.mem_cons.1 hr with rfl | hr
    · exact ⟨[], c, rfl⟩
    · obtain ⟨before, c', hcall⟩ := ih hr
      exact ⟨c :: before, c', hcall⟩

/-- What is found in the text that was not looked at has no text of its own, or this is given a
number. -/
theorem scan_cases (lexer : Lexer) :
    (lexer.scan.1.text? = none ∧ lexer.scan.2.names = lexer.names) ∨
      ∃ text, lexer.scan.1.text? = some text ∧
        lexer.scan.1.name? = some (lexer.names.intern text).1 ∧
        lexer.scan.2.names = (lexer.names.intern text).2 := by
  cases hnext : Token.next lexer.pos lexer.rest with
  | inl fin =>
    rw [scan_of_end hnext]
    exact .inl ⟨rfl, rfl⟩
  | inr next =>
    obtain ⟨⟨lexeme, pos⟩, stop, rest⟩ := next
    rw [scan, hnext]
    cases lexeme with
    | string text => exact .inr ⟨text, rfl, rfl, rfl⟩
    | ident name => exact .inr ⟨name, rfl, rfl, rfl⟩
    | _ => exact .inl ⟨rfl, rfl⟩

/-- What holds of a lexer that has returned some readings. -/
structure Interned (lexer : Lexer) (returned : List Reading) : Prop where
  names : lexer.names.Holds returned
  /-- What has been looked at was returned. -/
  ahead : ∀ r, lexer.ahead = some r → r ∈ returned

/-- What one call does to the numbers, if `r` is what it returns: the table holds its text as well,
it was only appended to, and a reading without a text leaves it as it is. -/
structure Keeps (names later : Names) (returned : List Reading) (r : Reading) : Prop where
  holds : later.Holds (returned ++ [r])
  grows : names.Grows later
  unnamed : r.text? = none → later = names

theorem Interned.get (h : lexer.Interned returned) :
    Keeps lexer.names lexer.get.2.names returned lexer.get.1 := by
  rw [Lexer.get]
  cases hahead : lexer.ahead with
  | some r =>
    exact ⟨h.names.known (h.names.numbers r (h.ahead r hahead)), List.prefix_refl _, fun _ => rfl⟩
  | none =>
    dsimp only
    rcases lexer.scan_cases with ⟨hnone, hsame⟩ | ⟨text, htext, hname, hinterned⟩
    · rw [hsame]
      refine ⟨h.names.known ?_, List.prefix_refl _, fun _ => rfl⟩
      intro text htext
      cases hnone.symm.trans htext
    · rw [hinterned]
      refine ⟨h.names.intern htext hname, lexer.names.grows_intern text, ?_⟩
      intro hnone
      cases hnone.symm.trans htext

/-- A call keeps what holds of the numbers. -/
theorem Interned.call (h : lexer.Interned returned) (c : Call) :
    (lexer.call c).2.Interned (returned ++ [(lexer.call c).1]) ∧
      Keeps lexer.names (lexer.call c).2.names returned (lexer.call c).1 := by
  have hget := h.get
  cases c with
  | get =>
    refine ⟨⟨hget.holds, ?_⟩, hget⟩
    intro r hahead
    cases (ahead_get lexer).symm.trans hahead
  | peek =>
    -- what is ahead now is the reading that is returned
    refine ⟨⟨hget.holds, ?_⟩, hget⟩
    intro r hahead
    cases hahead
    exact List.mem_append_right _ List.mem_cons_self

theorem Interned.after (h : lexer.Interned returned) (calls : List Call) :
    (lexer.after calls).Interned (returned ++ lexer.answers calls) ∧
      lexer.names.Grows (lexer.after calls).names := by
  induction calls generalizing lexer returned with
  | nil => exact ⟨by rwa [answers, List.append_nil], List.prefix_refl _⟩
  | cons c calls ih =>
    obtain ⟨hcall, hkeeps⟩ := h.call c
    obtain ⟨hafter, hgrows⟩ := ih hcall
    rw [List.append_assoc] at hafter
    exact ⟨hafter, List.IsPrefix.trans hkeeps.grows hgrows⟩

theorem interned_after (source : String) (calls : List Call) :
    ((ofSource source).after calls).Interned ((ofSource source).answers calls) := by
  have hstart : (ofSource source).Interned [] := by
    refine ⟨Names.holds_nothing, ?_⟩
    intro r hahead
    cases hahead
  exact (hstart.after calls).1

end Lexer

/-! ## Characters -/

/-- An identifier is taken from the front of the text as it stands there. -/
theorem Scan.eq_append_of_ident {p : Position} {c : Char} {cs : List Char} {x : String}
    (h : (token p c cs).lexeme = .ident x) : c :: cs = x.toList ++ (token p c cs).rest := by
  obtain ⟨-, -, htext, hrest⟩ := word_of_ident h
  rw [htext, hrest, List.takeWhile_append_dropWhile]

namespace Slice.Read

variable {s : Slice} {before rest : List Char}

/-- An identifier is the characters that it was read from. -/
theorem word_of_ident {x : String} (h : s.Read before rest) (hx : s.token.lexeme = .ident x) :
    s.word = x.toList := by
  obtain ⟨c, cs, hword, hread⟩ := h.token
  have hident : (Scan.token s.token.pos c (cs ++ rest)).lexeme = .ident x := by rw [hread, hx]
  have hfront := Scan.eq_append_of_ident hident
  rw [hread, ← List.cons_append] at hfront
  rw [hword, List.append_cancel_right hfront]

/-- A string was read from a literal of its text. -/
theorem literal_of_string {text : String} (h : s.Read before rest)
    (ht : s.token.lexeme = .string text) : IsStringLiteral text s.word := by
  rcases h.string_or_malformed (h.head?_of_string ht) with
    ⟨text', htext', hliteral⟩ | ⟨fault, hfault⟩
  · cases ht.symm.trans htext'
    exact hliteral
  · cases ht.symm.trans hfault

end Slice.Read

namespace Lexer

/-- What holds of the numbers that a lexer of a source has given when it has returned some
readings. -/
structure Numbering (source : String) (lexer : Lexer) (returned : List Reading) : Prop where
  /-- The texts that have numbers are those that were returned, each once, in the order of their
  first appearance. -/
  entries : lexer.names.entries.toList = (returned.filterMap Reading.text?).eraseDups
  /-- No text has two numbers. -/
  distinct : lexer.names.entries.toList.Nodup
  /-- Texts are only ever appended. -/
  appended : ∀ calls, lexer.names.entries.toList <+: (lexer.after calls).names.entries.toList
  /-- Every identifier and every string that was returned has a number, by which its text is
  found. -/
  resolved : ∀ r ∈ returned, ∀ text, r.text? = some text →
    lexer.text r = text ∧ ∃ i, r.name? = some i ∧ lexer.names.get? i = some text
  /-- The text of a token is that of the characters that the token was read from: these are the
  identifier itself, or a literal of the string. -/
  read : ∀ t name, .token t name ∈ returned → ∃ (before : List Char) (s : Slice) (rest : List Char),
    source.toList = before ++ s.text ++ rest ∧ s.token = t ∧ s.Read before rest ∧
      (∀ x, t.lexeme = .ident x → s.word = x.toList) ∧
      ∀ text, t.lexeme = .string text → IsStringLiteral text s.word
  /-- Two of them have the same number exactly if they have the same text, identifiers and strings
  alike. -/
  same : ∀ r ∈ returned, ∀ r' ∈ returned, r.text?.isSome → r'.text?.isSome →
    (r.name? = r'.name? ↔ r.text? = r'.text?)
  /-- What is neither an identifier nor a string adds nothing: no reserved word does, and no string
  literal that is malformed. -/
  unnamed : ∀ c, (lexer.call c).1.text? = none → (lexer.call c).2.names = lexer.names

/-- The numbers that a lexer of a source gives are stable, whatever is taken or looked at. -/
theorem numbering_stable (source : String) (calls : List Call) :
    Numbering source ((ofSource source).after calls) ((ofSource source).answers calls) := by
  have h := interned_after source calls
  refine {
    entries := h.names.entries
    distinct := h.names.distinct
    appended := fun later => (h.after later).2
    resolved := ?_
    read := ?_
    same := fun r hr r' hr' => h.names.name?_eq_iff hr hr'
    unnamed := fun c => (h.call c).2.unnamed }
  · intro r hr text htext
    obtain ⟨i, hname, hi⟩ := h.names.numbers r hr text htext
    refine ⟨?_, i, hname, hi⟩
    rw [Lexer.text, hname, Option.bind_some, hi, Option.getD_some]
  · intro t name ht
    obtain ⟨before, c, hcall⟩ := exists_call_of_mem_answers ht
    obtain ⟨front, s, hs⟩ := returned_of_call hcall
    refine ⟨front, s, _, hs.text, hs.token, hs.read, ?_, ?_⟩
    · intro x hx
      exact hs.read.word_of_ident (hs.token ▸ hx)
    · intro text htext
      exact hs.read.literal_of_string (hs.token ▸ htext)

/-- A string has the number of the identifier with its text. -/
example : ((ofSource "a \"a\" var b").answers [.peek, .get, .get, .get, .get]).map Reading.name? =
    [some 0, some 0, some 0, none, some 1] := by
  cbv

end Lexer

end ScriptFuzz
