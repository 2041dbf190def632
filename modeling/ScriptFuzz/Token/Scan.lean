import ScriptFuzz.Token.Basic
import ScriptFuzz.Text.Blank
import ScriptFuzz.Decimal.Nearest

/-!
# Reading tokens from a source text

`TokenStream.ofSource` cuts a text into tokens. Blanks and comments, from `//` to the end of the
line, only separate them. A token is the longest piece of text that is one; text that is none
becomes a malformed token, and reading goes on behind the characters looked at.

Each reader of a kind of token comes with the fact that it leaves no more text than it was given;
reading all tokens therefore ends.
-/

namespace ScriptFuzz

namespace Scan

/-- A lexeme, and the place and the text behind it. -/
structure Scanned where
  /-- What was read. -/
  lexeme : Lexeme
  /-- The place behind it. -/
  stop : Position
  /-- The text behind it. -/
  rest : List Char

/-- Skips blanks and comments; `inComment` says whether a comment is open. -/
def skip (inComment : Bool) (p : Position) : List Char → Position × List Char
  | [] => (p, [])
  | c :: cs =>
    if inComment then skip (c != '\n') (p.after c) cs
    else if Text.isBlank c then skip false (p.after c) cs
    else if c == '/' && cs.head? == some '/' then skip true (p.after c) cs
    else (p, c :: cs)

/-- Whether a character may go on a name or a keyword. -/
def isWordChar (c : Char) : Bool := c.isAlphanum || c == '_'

/-- Reads a name or a keyword. -/
def word (p : Position) (cs : List Char) : Scanned :=
  let letters := cs.takeWhile isWordChar
  let text := String.ofList letters
  { lexeme := ((Keyword.ofSpelling? text).map .keyword).getD (.ident text)
    stop := p.afterAll letters
    rest := cs.dropWhile isWordChar }

/-- The value of a digit; letters count from ten. -/
def digitValue (c : Char) : Nat :=
  if c.isDigit then c.toNat - '0'.toNat else 10 + (c.toLower.toNat - 'a'.toNat)

/-- Whether a character is a hexadecimal digit. -/
def isHexDigit (c : Char) : Bool :=
  c.isDigit || ('a' ≤ c && c ≤ 'f') || ('A' ≤ c && c ≤ 'F')

/-- The number that a run of decimal digits spells. -/
def ofDigits (cs : List Char) : Nat := cs.foldl (fun n c => 10 * n + digitValue c) 0

/-- Reads what follows the point of a real number: its decimal places and an optional `f`. -/
def fraction (whole : Nat) (p : Position) (cs : List Char) : Scanned :=
  let places := cs.takeWhile Char.isDigit
  let scale := 10 ^ places.length
  let lexeme := .real (Decimal.nearestBits (whole * scale + ofDigits places) scale)
  match cs.dropWhile Char.isDigit with
  | 'f' :: rest => ⟨lexeme, (p.afterAll places).after 'f', rest⟩
  | rest => ⟨lexeme, p.afterAll places, rest⟩

/-- Reads a decimal literal whose digits so far spell `value`. It fails on the first digit that
makes it too large. -/
def decimal (value : Nat) (p : Position) : List Char → Scanned
  | [] => ⟨.integer (.ofNat value), p, []⟩
  | c :: cs =>
    if c.isDigit then
      let value := 10 * value + digitValue c
      if value < 2 ^ (64 : Nat) then decimal value (p.after c) cs
      else ⟨.malformed .decimalTooLarge, p.after c, cs⟩
    else if c == '.' then fraction value (p.after c) cs
    else ⟨.integer (.ofNat value), p, c :: cs⟩

/-- The outcome of a hexadecimal literal of `count` digits. -/
def hexLexeme (count value : Nat) : Lexeme :=
  if count = 0 then .malformed .hexWithoutDigits else .integer (.ofNat value)

/-- Reads a hexadecimal literal behind its `0x`, of which `count` digits have been read. It fails on
the seventeenth digit. -/
def hexadecimal (count value : Nat) (p : Position) : List Char → Scanned
  | [] => ⟨hexLexeme count value, p, []⟩
  | c :: cs =>
    if isHexDigit c then
      if count < 16 then hexadecimal (count + 1) (16 * value + digitValue c) (p.after c) cs
      else ⟨.malformed .hexTooLong, p.after c, cs⟩
    else ⟨hexLexeme count value, p, c :: cs⟩

/-- Reads a number. -/
def number (p : Position) : List Char → Scanned
  | '0' :: 'x' :: cs => hexadecimal 0 0 ((p.after '0').after 'x') cs
  | '0' :: 'X' :: cs => hexadecimal 0 0 ((p.after '0').after 'X') cs
  | cs => decimal 0 p cs

/-- The character that an escape stands for. -/
def unescape? : Char → Option Char
  | '\\' => some '\\'
  | 'n' => some '\n'
  | 'r' => some '\r'
  | 't' => some '\t'
  | _ => none

/-- Reads a string behind its opening quote; `read` holds its characters so far, last one first. -/
def string (read : List Char) (p : Position) : List Char → Scanned
  | [] => ⟨.malformed .unterminatedString, p, []⟩
  | c :: cs =>
    if c = '"' then ⟨.string (String.ofList read.reverse), p.after c, cs⟩
    else if c = '\n' ∨ c = '\r' ∨ c = '\x00' then ⟨.malformed .rawControlInString, p, c :: cs⟩
    else if c = '\\' then
      match cs with
      | [] => ⟨.malformed .unterminatedString, p.after c, []⟩
      | e :: cs =>
        match unescape? e with
        | some d => string (d :: read) ((p.after c).after e) cs
        | none => ⟨.malformed (.unknownEscape e), p.after c, e :: cs⟩
    else string (c :: read) (p.after c) cs

/-- Reads a mark that begins with `c`: the longer one of two characters if there is one. -/
def mark (p : Position) (c : Char) (cs : List Char) : Scanned :=
  match Mark.ofSpelling? (c :: cs.take 1) with
  | some m => ⟨.mark m, p.afterAll (c :: cs.take 1), cs.drop 1⟩
  | none =>
    match Mark.ofSpelling? [c] with
    | some m => ⟨.mark m, p.after c, cs⟩
    | none => ⟨.malformed (.unexpectedCharacter c), p.after c, cs⟩

/-- Reads the token that begins with `c`. -/
def token (p : Position) (c : Char) (cs : List Char) : Scanned :=
  if c.isAlpha then word p (c :: cs)
  else if c.isDigit then number p (c :: cs)
  else if c = '"' then string [] (p.after c) cs
  else mark p c cs

/-! ## No reader leaves more text than it was given -/

theorem length_skip (inComment : Bool) (p : Position) (cs : List Char) :
    (skip inComment p cs).2.length ≤ cs.length := by
  induction cs generalizing inComment p with
  | nil => simp [skip]
  | cons c cs ih =>
    simp only [skip]
    repeat' split
    all_goals first | exact Nat.le_refl _ | exact Nat.le_succ_of_le (ih _ _)

theorem length_word_lt (p : Position) {c : Char} (cs : List Char) (h : c.isAlpha = true) :
    (word p (c :: cs)).rest.length < (c :: cs).length := by
  have hc : isWordChar c = true := by simp [isWordChar, Char.isAlphanum, h]
  have hrest : (cs.dropWhile isWordChar).length ≤ cs.length :=
    (List.dropWhile_sublist isWordChar).length_le
  simpa [word, hc] using Nat.lt_succ_of_le hrest

theorem length_fraction (whole : Nat) (p : Position) (cs : List Char) :
    (fraction whole p cs).rest.length ≤ cs.length := by
  have h : (cs.dropWhile Char.isDigit).length ≤ cs.length :=
    (List.dropWhile_sublist Char.isDigit).length_le
  simp only [fraction]
  split
  · next rest heq =>
    rw [heq] at h
    exact Nat.le_of_succ_le h
  · exact h

theorem length_decimal (value : Nat) (p : Position) (cs : List Char) :
    (decimal value p cs).rest.length ≤ cs.length := by
  induction cs generalizing value p with
  | nil => simp [decimal]
  | cons c cs ih =>
    simp only [decimal]
    repeat' split
    · exact Nat.le_succ_of_le (ih _ _)
    · simp
    · exact Nat.le_succ_of_le (length_fraction _ _ _)
    · simp

theorem length_decimal_lt (p : Position) {c : Char} (cs : List Char) (h : c.isDigit = true) :
    (decimal 0 p (c :: cs)).rest.length < (c :: cs).length := by
  simp only [decimal, h, if_true]
  split
  · exact Nat.lt_succ_of_le (length_decimal _ _ _)
  · simp

theorem length_hexadecimal (count value : Nat) (p : Position) (cs : List Char) :
    (hexadecimal count value p cs).rest.length ≤ cs.length := by
  induction cs generalizing count value p with
  | nil => simp [hexadecimal]
  | cons c cs ih =>
    simp only [hexadecimal]
    repeat' split
    · exact Nat.le_succ_of_le (ih _ _ _)
    · simp
    · simp

theorem length_number_lt (p : Position) {c : Char} (cs : List Char) (h : c.isDigit = true) :
    (number p (c :: cs)).rest.length < (c :: cs).length := by
  unfold number
  split
  · have := length_hexadecimal 0 0 ((p.after '0').after 'x') (by assumption)
    simp_all; omega
  · have := length_hexadecimal 0 0 ((p.after '0').after 'X') (by assumption)
    simp_all; omega
  · exact length_decimal_lt p cs h

theorem length_string (read : List Char) (p : Position) (cs : List Char) :
    (string read p cs).rest.length ≤ cs.length := by
  fun_induction string read p cs <;> simp_all <;> omega

theorem length_mark (p : Position) (c : Char) (cs : List Char) :
    (mark p c cs).rest.length ≤ cs.length := by
  unfold mark
  split
  · simp
  · split <;> simp

theorem length_token_lt (p : Position) (c : Char) (cs : List Char) :
    (token p c cs).rest.length < (c :: cs).length := by
  unfold token
  split
  · exact length_word_lt p cs ‹_›
  split
  · exact length_number_lt p cs ‹_›
  split
  · exact Nat.lt_succ_of_le (length_string _ _ _)
  · exact Nat.lt_succ_of_le (length_mark _ _ _)

end Scan

/-- The next token behind any blanks and comments, with the place and the text behind it; or, if
there is none, the place where the text ends. -/
def Token.next (p : Position) (cs : List Char) : Position ⊕ (Token × Position × List Char) :=
  match Scan.skip false p cs with
  | (start, []) => .inl start
  | (start, c :: cs) =>
    let scanned := Scan.token start c cs
    .inr (⟨scanned.lexeme, start⟩, scanned.stop, scanned.rest)

theorem Token.length_next_lt {p stop : Position} {cs rest : List Char} {t : Token}
    (h : Token.next p cs = .inr (t, stop, rest)) : rest.length < cs.length := by
  have hs := Scan.length_skip false p cs
  unfold Token.next at h
  split at h
  · simp at h
  · next start c ds heq =>
    have ht := Scan.length_token_lt start c ds
    simp only [Sum.inr.injEq, Prod.mk.injEq] at h
    rw [heq] at hs
    rw [← h.2.2]
    exact Nat.lt_of_lt_of_le ht hs

namespace TokenStream

/-- Reads all tokens of the text that starts at `p`; `read` holds those before, last one first. -/
def collect (read : List Token) (p : Position) (cs : List Char) : TokenStream :=
  match _h : Token.next p cs with
  | .inl fin => ⟨read.reverse, fin⟩
  | .inr (t, stop, rest) => collect (t :: read) stop rest
termination_by cs.length
decreasing_by exact Token.length_next_lt _h

/-- The tokens of a source text. -/
def ofSource (source : String) : TokenStream := collect [] {} source.toList

end TokenStream

end ScriptFuzz
