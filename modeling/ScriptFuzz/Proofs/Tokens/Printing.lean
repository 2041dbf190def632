import ScriptFuzz.Token.Scan

/-!
# Printed tokens

How tokens are written down, and that what is written down is read again.

- `IsName`: the spellings that are identifiers.
- `Lexeme.Spelled`: the spellings of a lexeme, and the characters that would be taken for a part of
  it if they came right behind it. Integers are written in decimal or hexadecimal digits, without
  leading zeros.
- `Gap`: blanks and comments.
- `Printed`: the texts that lexemes are written as, with gaps between them. There may be no gap
  where two lexemes would not merge.
- `lexemes_of_printed`: a printed text is read as the lexemes it was made of.
- `exists_printed`: lexemes that have spellings can be printed.
- `isName_of_mem_source`: the identifiers of a text are names.
-/

namespace ScriptFuzz

/-! ## Spellings -/

/-- A spelling that is read as an identifier: a letter, then letters, digits and underscores, but no
reserved word. -/
def IsName (x : String) : Prop :=
  (∃ c cs, x.toList = c :: cs ∧ c.isAlpha ∧ ∀ d ∈ cs, Scan.isWordChar d) ∧
    Keyword.ofSpelling? x = none

/-- Whether a character right behind a mark would change how it is read: two marks of one character
can be one of two, and two slashes begin a comment. -/
def Mark.joins (m : Mark) (c : Char) : Bool :=
  (Mark.ofSpelling? (m.spelling ++ [c])).isSome || m == .slash && c == '/'

/-- Whether a character right behind a number in decimal digits would be taken for a part of it. A
zero and an `x` begin a hexadecimal number. -/
def decimalJoins (v : UInt64) (c : Char) : Bool :=
  c.isDigit || c == '.' || v == 0 && (c == 'x' || c == 'X')

/-- The spellings of a lexeme, and the characters that would be taken for a part of it if they came
right behind it. -/
inductive Lexeme.Spelled : Lexeme → List Char → (Char → Bool) → Prop
  | mark (m : Mark) : Spelled (.mark m) m.spelling m.joins
  | keyword (k : Keyword) : Spelled (.keyword k) k.spelling.toList Scan.isWordChar
  | ident {x : String} (hx : IsName x) : Spelled (.ident x) x.toList Scan.isWordChar
  | decimal (v : UInt64) : Spelled (.integer v) (Nat.toDigits 10 v.toNat) (decimalJoins v)
  | hexadecimal (v : UInt64) {x : Char} {digits : List Char} (hx : x = 'x' ∨ x = 'X')
      (hd : digits.map Char.toLower = Nat.toDigits 16 v.toNat) :
      Spelled (.integer v) ('0' :: x :: digits) Scan.isHexDigit

/-- Blanks and comments. A comment goes to the end of its line. -/
inductive Gap : List Char → Prop
  | nil : Gap []
  | blank {c : Char} {cs : List Char} (hc : Text.isBlank c) (h : Gap cs) : Gap (c :: cs)
  | comment {text cs : List Char} (ht : '\n' ∉ text) (h : Gap cs) :
      Gap ('/' :: '/' :: text ++ '\n' :: cs)

/-- The texts that lexemes are written as: their spellings, with gaps before, between and behind
them. Between two lexemes there may be no gap if the first one is not read differently then. The
last line may end in a comment. -/
inductive Printed : List Char → List Lexeme → Prop
  | nil {gap : List Char} (hg : Gap gap) : Printed gap []
  | comment {gap text : List Char} (hg : Gap gap) (ht : '\n' ∉ text) :
      Printed (gap ++ '/' :: '/' :: text) []
  | cons {gap word rest : List Char} {l : Lexeme} {ls : List Lexeme} {joins : Char → Bool}
      (hg : Gap gap) (hl : l.Spelled word joins) (hapart : ∀ c ∈ rest.head?, joins c = false)
      (h : Printed rest ls) : Printed (gap ++ word ++ rest) (l :: ls)

/-! ## Gaps -/

namespace Scan

theorem isBlank_slash : Text.isBlank '/' = false := by decide

/-- The rest of a comment is skipped up to the end of its line. -/
theorem skip_comment {text : List Char} (ht : '\n' ∉ text) (p : Position) (cs : List Char) :
    ∃ p', skip true p (text ++ '\n' :: cs) = skip false p' cs := by
  induction text generalizing p with
  | nil => exact ⟨p.after '\n', rfl⟩
  | cons c text ih =>
    obtain ⟨hc, ht⟩ := not_or.1 (mt List.mem_cons.2 ht)
    obtain ⟨p', hp'⟩ := ih ht (p.after c)
    refine ⟨p', ?_⟩
    rw [List.cons_append, skip, if_pos rfl, bne_iff_ne.2 (Ne.symm hc), hp']

/-- A comment that is not ended by a line break goes to the end of the text. -/
theorem skip_last_comment {text : List Char} (ht : '\n' ∉ text) (p : Position) :
    ∃ p', skip true p text = (p', []) := by
  induction text generalizing p with
  | nil => exact ⟨p, rfl⟩
  | cons c text ih =>
    obtain ⟨hc, ht⟩ := not_or.1 (mt List.mem_cons.2 ht)
    obtain ⟨p', hp'⟩ := ih ht (p.after c)
    refine ⟨p', ?_⟩
    rw [skip, if_pos rfl, bne_iff_ne.2 (Ne.symm hc), hp']

/-- Two slashes open a comment. -/
theorem skip_slashes (p : Position) (cs : List Char) :
    skip false p ('/' :: '/' :: cs) = skip true ((p.after '/').after '/') cs := by
  rw [skip, if_neg Bool.false_ne_true, isBlank_slash, if_neg Bool.false_ne_true, List.head?_cons,
    if_pos (by decide), skip, if_pos rfl]
  rfl

theorem skip_gap {gap : List Char} (hg : Gap gap) (p : Position) (cs : List Char) :
    ∃ p', skip false p (gap ++ cs) = skip false p' cs := by
  induction hg generalizing p with
  | nil => exact ⟨p, rfl⟩
  | @blank c gap hc _ ih =>
    obtain ⟨p', hp'⟩ := ih (p.after c)
    refine ⟨p', ?_⟩
    rw [List.cons_append, skip, if_neg Bool.false_ne_true, if_pos hc, hp']
  | @comment text gap ht _ ih =>
    obtain ⟨p₁, hp₁⟩ := skip_comment ht ((p.after '/').after '/') (gap ++ cs)
    obtain ⟨p', hp'⟩ := ih p₁
    refine ⟨p', ?_⟩
    rw [List.append_assoc, List.cons_append, List.cons_append, skip_slashes, List.cons_append, hp₁,
      hp']

/-! ## Words -/

variable {c : Char} {cs rest : List Char} {p : Position}

/-- A run of characters of one class is taken up to the first one that is not of the class. -/
theorem takeWhile_eq {f : Char → Bool} (h : ∀ c ∈ cs, f c) (hrest : ∀ c ∈ rest.head?, f c = false) :
    (cs ++ rest).takeWhile f = cs ∧ (cs ++ rest).dropWhile f = rest := by
  rw [List.takeWhile_append_of_pos h, List.dropWhile_append_of_pos h]
  cases rest with
  | nil => simp
  | cons d rest => simp [hrest d rfl]

/-- A word is taken as a whole. -/
theorem word_append (h : ∀ c ∈ cs, isWordChar c) (hrest : ∀ c ∈ rest.head?, isWordChar c = false) :
    (word p (cs ++ rest)).lexeme =
        ((Keyword.ofSpelling? (String.ofList cs)).map .keyword).getD (.ident (String.ofList cs)) ∧
      (word p (cs ++ rest)).rest = rest := by
  obtain ⟨htake, hdrop⟩ := takeWhile_eq h hrest
  rw [word, htake, hdrop]
  exact ⟨rfl, rfl⟩

theorem isWordChar_of_isAlpha (h : c.isAlpha) : isWordChar c := by
  simp [isWordChar, Char.isAlphanum, h]

/-- The reserved words are words, and the table finds them. -/
theorem keyword_spelling (k : Keyword) :
    (∃ c cs, k.spelling.toList = c :: cs ∧ c.isAlpha ∧ ∀ d ∈ cs, isWordChar d) ∧
      Keyword.ofSpelling? k.spelling = some k := by
  cases k with
  | wire t =>
    obtain ⟨w, signed⟩ := t
    cases w <;> cases signed <;>
      exact ⟨⟨_, _, rfl, rfl, List.all_eq_true.1 (by decide)⟩, by decide⟩
  | _ => exact ⟨⟨_, _, rfl, rfl, List.all_eq_true.1 (by decide)⟩, by decide⟩

/-! ## Numbers -/

/-- The number that digits in a base spell behind a number that is there already. -/
def digitsValue (base : Nat) (start : Nat) (cs : List Char) : Nat :=
  cs.foldl (fun n c => base * n + digitValue c) start

theorem le_digitsValue {base : Nat} (hbase : 1 < base) (start : Nat) (cs : List Char) :
    start ≤ digitsValue base start cs := by
  induction cs generalizing start with
  | nil => exact Nat.le_refl _
  | cons c cs ih =>
    have hstep : start ≤ base * start + digitValue c :=
      Nat.le_add_right_of_le (Nat.le_mul_of_pos_left start (Nat.zero_lt_of_lt hbase))
    exact Nat.le_trans hstep (ih _)

/-- The digits of the bases up to sixteen, small and capital. -/
theorem hexDigit_digitChar : ∀ {n : Nat}, n < 16 →
    (isHexDigit n.digitChar ∧ digitValue n.digitChar = n) ∧
      isHexDigit n.digitChar.toUpper ∧ digitValue n.digitChar.toUpper = n := by
  decide

/-- The digits of a number spell the number. -/
theorem digitsValue_toDigits {base : Nat} (hbase : 1 < base) (hle : base ≤ 16) (n : Nat) :
    digitsValue base 0 (Nat.toDigits base n) = n := by
  induction n using Nat.base_induction base hbase with
  | single n hn =>
    rw [Nat.toDigits_of_lt_base hn, digitsValue, List.foldl_cons, List.foldl_nil, Nat.mul_zero,
      Nat.zero_add, (hexDigit_digitChar (Nat.lt_of_lt_of_le hn hle)).1.2]
  | digit n k hk hn ih =>
    rw [digitsValue] at ih
    rw [← Nat.toDigits_append_toDigits hbase hn hk, Nat.toDigits_of_lt_base hk, digitsValue,
      List.foldl_append, ih, List.foldl_cons, List.foldl_nil,
      (hexDigit_digitChar (Nat.lt_of_lt_of_le hk hle)).1.2]

theorem exists_digitChar_of_mem_toDigits {base n : Nat} (hbase : 1 < base)
    (h : c ∈ Nat.toDigits base n) : ∃ k, k < base ∧ c = k.digitChar := by
  induction n using Nat.base_induction base hbase with
  | single n hn =>
    rw [Nat.toDigits_of_lt_base hn, List.mem_singleton] at h
    exact ⟨n, hn, h⟩
  | digit n k hk hn ih =>
    rw [← Nat.toDigits_append_toDigits hbase hn hk, Nat.toDigits_of_lt_base hk, List.mem_append,
      List.mem_singleton] at h
    rcases h with h | rfl
    · exact ih h
    · exact ⟨k, hk, rfl⟩

/-- What holds of the first characters, code by code, holds of each of them. -/
theorem of_code_lt {P : Char → Prop} {b : Nat} (h : ∀ n < b, P (Char.ofNat n)) {c : Char}
    (hc : c.toNat < b) : P c := by
  have hcode := h c.toNat hc
  rwa [Char.ofNat_toNat] at hcode

theorem toNat_of_isDigit (h : c.isDigit) : 48 ≤ c.toNat ∧ c.toNat ≤ 57 := by
  obtain ⟨hge, hle⟩ := Bool.and_eq_true_iff.1 h
  exact ⟨of_decide_eq_true hge, of_decide_eq_true hle⟩

/-- A character is its small letter, or the capital one of that. -/
theorem toLower_cases (c : Char) : c.toLower = c ∨ c.toLower.toUpper = c := by
  by_cases h : c.val ≥ 'A'.val ∧ c.val ≤ 'Z'.val
  · refine .inr ?_
    have hcapital : 65 ≤ c.toNat ∧ c.toNat ≤ 90 := h
    exact of_code_lt (P := fun c => 65 ≤ c.toNat → c.toLower.toUpper = c) (b := 91) (by decide)
      (by omega) hcapital.1
  · exact .inl (dif_neg h)

/-- A digit counts the same in small and in capital letters. -/
theorem hexDigit_of_toLower {k : Nat} (hk : k < 16) (h : c.toLower = k.digitChar) :
    isHexDigit c ∧ digitValue c = k := by
  obtain ⟨hlower, hupper⟩ := hexDigit_digitChar hk
  rcases toLower_cases c with hc | hc
  · rwa [← hc, h]
  · rwa [← hc, h]

theorem digitsValue_map_toLower {start : Nat} (h : ∀ c ∈ cs, ∃ k < 16, c.toLower = k.digitChar) :
    digitsValue 16 start (cs.map Char.toLower) = digitsValue 16 start cs := by
  induction cs generalizing start with
  | nil => rfl
  | cons c cs ih =>
    obtain ⟨⟨k, hk, hc⟩, h⟩ := List.forall_mem_cons.1 h
    rw [digitsValue, digitsValue, List.map_cons, List.foldl_cons, List.foldl_cons, hc,
      (hexDigit_digitChar hk).1.2, (hexDigit_of_toLower hk hc).2]
    exact ih h

/-- Decimal digits are read up to the first character that is neither a digit nor a point. -/
theorem decimal_append {start : Nat} (h : ∀ c ∈ cs, c.isDigit)
    (hlt : digitsValue 10 start cs < 2 ^ (64 : Nat))
    (hrest : ∀ c ∈ rest.head?, c.isDigit = false ∧ c ≠ '.') (p : Position) :
    (decimal start p (cs ++ rest)).lexeme = .integer (.ofNat (digitsValue 10 start cs)) ∧
      (decimal start p (cs ++ rest)).rest = rest := by
  induction cs generalizing start p with
  | nil =>
    cases rest with
    | nil => exact ⟨rfl, rfl⟩
    | cons d rest =>
      obtain ⟨hdigit, hpoint⟩ := hrest d rfl
      rw [List.nil_append, decimal, hdigit, if_neg Bool.false_ne_true, beq_false_of_ne hpoint]
      exact ⟨rfl, rfl⟩
  | cons c cs ih =>
    obtain ⟨hc, h⟩ := List.forall_mem_cons.1 h
    -- what the digits spell so far is no more than what they spell in the end
    have hle : 10 * start + digitValue c ≤ digitsValue 10 start (c :: cs) :=
      le_digitsValue (by decide) _ cs
    rw [List.cons_append, decimal, if_pos hc]
    dsimp only
    rw [if_pos (Nat.lt_of_le_of_lt hle hlt)]
    exact ih h hlt (p.after c)

/-- Up to sixteen hexadecimal digits are read up to the first other character. -/
theorem hexadecimal_append {count : Nat} (start : Nat) (h : ∀ c ∈ cs, isHexDigit c)
    (hcount : count + cs.length ≤ 16) (hpos : 0 < count + cs.length)
    (hrest : ∀ c ∈ rest.head?, isHexDigit c = false) (p : Position) :
    (hexadecimal count start p (cs ++ rest)).lexeme = .integer (.ofNat (digitsValue 16 start cs)) ∧
      (hexadecimal count start p (cs ++ rest)).rest = rest := by
  induction cs generalizing count start p with
  | nil =>
    have hlexeme : hexLexeme count start = .integer (.ofNat start) := if_neg (Nat.ne_of_gt hpos)
    cases rest with
    | nil => exact ⟨hlexeme, rfl⟩
    | cons d rest =>
      rw [List.nil_append, hexadecimal, hrest d rfl]
      exact ⟨hlexeme, rfl⟩
  | cons c cs ih =>
    obtain ⟨hc, h⟩ := List.forall_mem_cons.1 h
    rw [List.length_cons] at hcount
    rw [List.cons_append, hexadecimal, if_pos hc, if_pos (by omega)]
    exact ih _ h (by omega) (by omega) (p.after c)

/-- What does not begin like a hexadecimal literal is read in decimal digits. -/
theorem number_eq_decimal (h : ∀ x rest, cs = '0' :: x :: rest → x ≠ 'x' ∧ x ≠ 'X')
    (p : Position) : number p cs = decimal 0 p cs := by
  unfold number
  split
  · exact absurd rfl (h _ _ rfl).1
  · exact absurd rfl (h _ _ rfl).2
  · rfl

/-! ## Tokens -/

/-- A text begins with a token, and `rest` comes behind it. -/
def Starts (text : List Char) (l : Lexeme) (rest : List Char) : Prop :=
  ∃ c cs, text = c :: cs ∧ (∀ p, skip false p text = (p, text)) ∧
    ∀ p, (token p c cs).lexeme = l ∧ (token p c cs).rest = rest

/-- What is neither blank nor a slash is not skipped. -/
theorem skip_cons (hblank : Text.isBlank c = false) (hslash : c ≠ '/' ∨ cs.head? ≠ some '/')
    (p : Position) : skip false p (c :: cs) = (p, c :: cs) := by
  have hcomment : (c == '/' && cs.head? == some '/') = false := by
    rcases hslash with h | h <;> simp [h]
  rw [skip, if_neg Bool.false_ne_true, hblank, if_neg Bool.false_ne_true, hcomment,
    if_neg Bool.false_ne_true]

/-- The characters of words are neither blank nor slashes. -/
theorem skip_isWordChar (hc : isWordChar c) (p : Position) :
    skip false p (c :: cs) = (p, c :: cs) := by
  have hrange : 48 ≤ c.toNat ∧ c.toNat ≤ 122 := by
    have hword : (c.isUpper || c.isLower || c.isDigit || c == '_') = true := hc
    rw [Bool.or_eq_true, Bool.or_eq_true, Bool.or_eq_true, beq_iff_eq] at hword
    rcases hword with ((h | h) | h) | rfl
    · have hupper : 65 ≤ c.toNat ∧ c.toNat ≤ 90 := of_decide_eq_true h
      omega
    · obtain ⟨hle, hge⟩ := Bool.and_eq_true_iff.1 h
      have hlower : 97 ≤ c.toNat ∧ c.toNat ≤ 122 := ⟨of_decide_eq_true hle, of_decide_eq_true hge⟩
      omega
    · have hdigit := toNat_of_isDigit h
      omega
    · decide
  have hchar : Text.isBlank c = false ∧ c ≠ '/' :=
    of_code_lt (P := fun c => 48 ≤ c.toNat → Text.isBlank c = false ∧ c ≠ '/') (b := 123)
      (by decide) (by omega) hrange.1
  exact skip_cons hchar.1 (.inl hchar.2) p

theorem mark_spelling (m : Mark) :
    Mark.ofSpelling? m.spelling = some m ∧ ∀ c ∈ m.spelling,
      c.isAlpha = false ∧ c.isDigit = false ∧ c ≠ '"' ∧ Text.isBlank c = false := by
  have hall : m.spelling.all fun c =>
      !c.isAlpha && !c.isDigit && c != '"' && !Text.isBlank c := by
    cases m <;> decide
  refine ⟨by cases m <;> decide, ?_⟩
  intro c hc
  have h := List.all_eq_true.1 hall c hc
  simpa [and_assoc] using h

/-- A mark is read as it is spelled, unless what follows joins it. -/
theorem starts_mark (m : Mark) (hrest : ∀ c ∈ rest.head?, m.joins c = false) :
    Starts (m.spelling ++ rest) (.mark m) rest := by
  obtain ⟨hspelling, hchars⟩ := mark_spelling m
  -- a mark has one character or two
  obtain ⟨c, tail, hm, hlength⟩ : ∃ c tail, m.spelling = c :: tail ∧ tail.length ≤ 1 := by
    cases m <;> exact ⟨_, _, rfl, by decide⟩
  obtain ⟨halpha, hdigit, hquote, hblank⟩ := hchars c (by rw [hm]; exact List.mem_cons_self)
  have hslash : c ≠ '/' ∨ (tail ++ rest).head? ≠ some '/' := by
    by_cases h : m = .slash
    · subst h
      cases hm
      refine .inr ?_
      intro hhead
      have := hrest '/' hhead
      revert this
      decide
    · refine .inl ?_
      rintro rfl
      cases m <;> simp_all [Mark.spelling]
  refine ⟨c, tail ++ rest, by rw [hm, List.cons_append], ?_, ?_⟩
  · intro p
    rw [hm, List.cons_append]
    exact skip_cons hblank hslash p
  intro p
  rw [token, halpha, hdigit, if_neg Bool.false_ne_true, if_neg Bool.false_ne_true, if_neg hquote,
    mark]
  rw [hm] at hspelling
  match tail, hlength with
  | [], _ =>
    cases rest with
    | nil =>
      rw [List.nil_append, List.take_nil, hspelling]
      exact ⟨rfl, rfl⟩
    | cons d rest =>
      have hjoins := hrest d rfl
      rw [Mark.joins, hm, Bool.or_eq_false_iff] at hjoins
      have hnone : Mark.ofSpelling? [c, d] = none := by simpa using hjoins.1
      rw [List.nil_append, List.take_succ_cons, List.take_zero, hnone, hspelling]
      exact ⟨rfl, rfl⟩
  | [d], _ =>
    rw [List.singleton_append, List.take_succ_cons, List.take_zero, hspelling]
    exact ⟨rfl, rfl⟩

/-- A word is read as a whole, if no word character follows. -/
theorem starts_word (hc : c.isAlpha) (h : ∀ d ∈ cs, isWordChar d)
    (hrest : ∀ d ∈ rest.head?, isWordChar d = false) :
    Starts (c :: cs ++ rest)
      (((Keyword.ofSpelling? (String.ofList (c :: cs))).map .keyword).getD
        (.ident (String.ofList (c :: cs)))) rest := by
  have hword : ∀ d ∈ c :: cs, isWordChar d := List.forall_mem_cons.2 ⟨isWordChar_of_isAlpha hc, h⟩
  refine ⟨c, cs ++ rest, rfl, skip_isWordChar (isWordChar_of_isAlpha hc), ?_⟩
  intro p
  rw [token, if_pos hc]
  exact word_append hword hrest

/-- A text that begins with a digit is read as a number. -/
theorem token_digit (hdigit : c.isDigit) (p : Position) : token p c cs = number p (c :: cs) := by
  have hrange := toNat_of_isDigit hdigit
  have halpha : c.isAlpha = false :=
    of_code_lt (P := fun c => c.isDigit → c.isAlpha = false) (b := 58) (by decide) (by omega) hdigit
  rw [token, halpha, if_neg Bool.false_ne_true, if_pos hdigit]

/-- A number that begins the text begins it as a token. -/
theorem starts_number {l : Lexeme} (hdigit : c.isDigit)
    (h : ∀ p, (number p (c :: cs)).lexeme = l ∧ (number p (c :: cs)).rest = rest) :
    Starts (c :: cs) l rest := by
  have hword : isWordChar c := by simp [isWordChar, Char.isAlphanum, hdigit]
  refine ⟨c, cs, rfl, skip_isWordChar hword, ?_⟩
  intro p
  rw [token_digit hdigit]
  exact h p

/-- Decimal digits are read as the number that they spell. -/
theorem starts_decimal (v : UInt64) (hrest : ∀ c ∈ rest.head?, decimalJoins v c = false) :
    Starts (Nat.toDigits 10 v.toNat ++ rest) (.integer v) rest := by
  have hdigits : ∀ c ∈ Nat.toDigits 10 v.toNat, c.isDigit := fun c h =>
    Nat.isDigit_of_mem_toDigits (by decide) (by decide) h
  have hvalue : digitsValue 10 0 (Nat.toDigits 10 v.toNat) = v.toNat :=
    digitsValue_toDigits (by decide) (by decide) _
  have hnext : ∀ c ∈ rest.head?, c.isDigit = false ∧ c ≠ '.' := by
    intro c hc
    have := hrest c hc
    simp only [decimalJoins, Bool.or_eq_false_iff, beq_eq_false_iff_ne] at this
    exact this.1
  have hread := decimal_append hdigits (by rw [hvalue]; exact v.toNat_lt) hnext
  rw [hvalue, UInt64.ofNat_toNat] at hread
  -- the digits do not look like the beginning of a hexadecimal number
  have hplain : ∀ x r, Nat.toDigits 10 v.toNat ++ rest = '0' :: x :: r → x ≠ 'x' ∧ x ≠ 'X' := by
    intro x r h
    rcases List.append_eq_cons_iff.1 h with ⟨hnil, -⟩ | ⟨tail, htail, hr⟩
    · exact absurd hnil Nat.toDigits_ne_nil
    rw [htail] at hdigits hvalue
    cases tail with
    | nil =>
      have hzero : v = 0 := UInt64.toNat_inj.1 hvalue.symm
      rw [List.nil_append] at hr
      have hx := hrest x (by rw [← hr]; rfl)
      subst hzero
      simp only [decimalJoins, Bool.or_eq_false_iff] at hx
      simpa using hx.2
    | cons d tail =>
      rw [List.cons_append, List.cons.injEq] at hr
      have hd := hdigits d (List.mem_cons_of_mem _ List.mem_cons_self)
      rw [hr.1]
      constructor <;> rintro rfl <;> simp at hd
  obtain ⟨c, cs, hc⟩ := List.exists_cons_of_ne_nil (@Nat.toDigits_ne_nil v.toNat 10)
  have hdigit : c.isDigit := hdigits c (by rw [hc]; exact List.mem_cons_self)
  rw [hc] at hread hplain ⊢
  refine starts_number hdigit fun p => ?_
  have hnumber := number_eq_decimal hplain p
  rw [List.cons_append] at hnumber hread
  exact hnumber ▸ hread p

/-- Hexadecimal digits are read as the number that they spell. -/
theorem starts_hexadecimal {v : UInt64} {x : Char} {digits : List Char} (hx : x = 'x' ∨ x = 'X')
    (hd : digits.map Char.toLower = Nat.toDigits 16 v.toNat)
    (hrest : ∀ c ∈ rest.head?, isHexDigit c = false) :
    Starts ('0' :: x :: digits ++ rest) (.integer v) rest := by
  have hdigits : ∀ c ∈ digits, ∃ k < 16, c.toLower = k.digitChar := by
    intro c hc
    have hmem : c.toLower ∈ Nat.toDigits 16 v.toNat := hd ▸ List.mem_map_of_mem hc
    exact exists_digitChar_of_mem_toDigits (by decide) hmem
  have hvalue : digitsValue 16 0 digits = v.toNat := by
    rw [← digitsValue_map_toLower hdigits, hd, digitsValue_toDigits (by decide) (by decide)]
  have hlength : digits.length = (Nat.toDigits 16 v.toNat).length := by
    rw [← hd, List.length_map]
  have hmax : digits.length ≤ 16 := by
    rw [hlength, Nat.length_toDigits_le_iff (by decide) (by decide)]
    exact v.toNat_lt
  have hpos : 0 < digits.length := by
    rw [hlength]
    exact List.length_pos_iff.2 Nat.toDigits_ne_nil
  have hhex : ∀ c ∈ digits, isHexDigit c := by
    intro c hc
    obtain ⟨k, hk, hc⟩ := hdigits c hc
    exact (hexDigit_of_toLower hk hc).1
  have hread (p : Position) : (hexadecimal 0 0 p (digits ++ rest)).lexeme = .integer v ∧
      (hexadecimal 0 0 p (digits ++ rest)).rest = rest := by
    have := hexadecimal_append 0 hhex (by omega : 0 + digits.length ≤ 16) (by omega) hrest p
    rwa [hvalue, UInt64.ofNat_toNat] at this
  refine starts_number (by decide) fun p => ?_
  rcases hx with rfl | rfl <;> exact hread _

/-- A lexeme is read as it is spelled, unless what follows joins it. -/
theorem starts_spelled {l : Lexeme} {word : List Char} {joins : Char → Bool}
    (hl : l.Spelled word joins) (hrest : ∀ c ∈ rest.head?, joins c = false) :
    Starts (word ++ rest) l rest := by
  cases hl with
  | mark m => exact starts_mark m hrest
  | keyword k =>
    obtain ⟨⟨c, cs, hk, hc, hcs⟩, hspelling⟩ := keyword_spelling k
    have hread := starts_word hc hcs hrest
    rwa [← hk, String.ofList_toList, hspelling] at hread
  | @ident x hx =>
    obtain ⟨⟨c, cs, hc, halpha, hcs⟩, hnone⟩ := hx
    have hread := starts_word halpha hcs hrest
    rwa [← hc, String.ofList_toList, hnone] at hread
  | decimal v => exact starts_decimal v hrest
  | hexadecimal v hx hd => exact starts_hexadecimal hx hd hrest

end Scan

/-! ## Texts -/

theorem Token.next_of_starts {text rest : List Char} {l : Lexeme} (h : Scan.Starts text l rest)
    {p p' : Position} {cs : List Char} (hp : Scan.skip false p cs = Scan.skip false p' text) :
    ∃ t stop, Token.next p cs = .inr (t, stop, rest) ∧ t.lexeme = l := by
  obtain ⟨c, ds, htext, hskip, htoken⟩ := h
  rw [Token.next, hp, hskip, htext]
  obtain ⟨hlexeme, hrest⟩ := htoken p'
  exact ⟨_, _, by rw [← hrest], hlexeme⟩

/-- All tokens of a text are read one after the other. -/
theorem TokenStream.collect_eq (read : List Token) (p : Position) (cs : List Char) :
    collect read p cs =
      match Token.next p cs with
      | .inl fin => ⟨read.reverse, fin⟩
      | .inr (t, stop, rest) => collect (t :: read) stop rest := by
  rw [collect]
  split <;> rename_i h <;> rw [h]

/-- A gap at the end of a text holds no token. -/
theorem Token.next_of_gap {gap : List Char} (hg : Gap gap) (p : Position) :
    ∃ fin, Token.next p gap = .inl fin := by
  obtain ⟨fin, hfin⟩ := Scan.skip_gap hg p []
  rw [List.append_nil] at hfin
  exact ⟨fin, by rw [Token.next, hfin]; rfl⟩

theorem Token.next_of_comment {gap text : List Char} (hg : Gap gap) (ht : '\n' ∉ text)
    (p : Position) : ∃ fin, Token.next p (gap ++ '/' :: '/' :: text) = .inl fin := by
  obtain ⟨p', hp'⟩ := Scan.skip_gap hg p ('/' :: '/' :: text)
  obtain ⟨fin, hfin⟩ := Scan.skip_last_comment ht ((p'.after '/').after '/')
  exact ⟨fin, by rw [Token.next, hp', Scan.skip_slashes, hfin]⟩

theorem TokenStream.lexemes_collect {text : List Char} {ls : List Lexeme} (h : Printed text ls)
    (read : List Token) (p : Position) :
    (collect read p text).tokens.map Token.lexeme = read.reverse.map Token.lexeme ++ ls := by
  induction h generalizing read p with
  | nil hg =>
    obtain ⟨fin, hfin⟩ := Token.next_of_gap hg p
    rw [collect_eq, hfin, List.append_nil]
  | comment hg ht =>
    obtain ⟨fin, hfin⟩ := Token.next_of_comment hg ht p
    rw [collect_eq, hfin, List.append_nil]
  | @cons gap word rest l ls joins hg hl hapart _ ih =>
    obtain ⟨p', hp'⟩ := Scan.skip_gap hg p (word ++ rest)
    rw [← List.append_assoc] at hp'
    obtain ⟨t, stop, hnext, rfl⟩ := Token.next_of_starts (Scan.starts_spelled hl hapart) hp'
    rw [collect_eq, hnext]
    dsimp only
    rw [ih, List.reverse_cons, List.map_append, List.append_assoc]
    rfl

/-- A printed text is read as the lexemes it was made of. -/
theorem lexemes_of_printed {source : String} {ls : List Lexeme} (h : Printed source.toList ls) :
    (TokenStream.ofSource source).tokens.map Token.lexeme = ls :=
  TokenStream.lexemes_collect h [] {}

/-- Nothing is read differently because of a blank behind it. -/
theorem Lexeme.Spelled.joins_blank {l : Lexeme} {word : List Char} {joins : Char → Bool}
    (h : l.Spelled word joins) : joins ' ' = false := by
  cases h with
  | mark m => cases m <;> decide
  | keyword | ident | hexadecimal => decide
  | decimal v => simp [decimalJoins]

/-- Lexemes that have spellings can be printed. -/
theorem exists_printed {ls : List Lexeme}
    (h : ∀ l ∈ ls, ∃ word joins, Lexeme.Spelled l word joins) : ∃ text, Printed text ls := by
  have hblank : Gap [' '] := .blank (by decide) .nil
  suffices ∃ text, Printed text ls ∧ ∀ c ∈ text.head?, c = ' ' by
    obtain ⟨text, htext, -⟩ := this
    exact ⟨text, htext⟩
  induction ls with
  | nil => exact ⟨[], .nil .nil, by simp⟩
  | cons l ls ih =>
    obtain ⟨⟨word, joins, hl⟩, h⟩ := List.forall_mem_cons.1 h
    obtain ⟨rest, hrest, hhead⟩ := ih h
    refine ⟨[' '] ++ word ++ rest, .cons hblank hl ?_ hrest, by simp⟩
    intro c hc
    rw [hhead c hc]
    exact hl.joins_blank

/-! ## Identifiers -/

namespace Scan

/-- Numbers have no text. -/
theorem text?_fraction (whole : Nat) (p : Position) (cs : List Char) :
    (fraction whole p cs).lexeme.text? = none := by
  unfold fraction
  dsimp only
  split <;> rfl

theorem text?_decimal (n : Nat) (p : Position) (cs : List Char) :
    (decimal n p cs).lexeme.text? = none := by
  fun_induction decimal n p cs with
  | case2 _ _ _ _ _ _ _ ih => exact ih
  | case4 => exact text?_fraction _ _ _
  | _ => rfl

theorem text?_hexLexeme (count n : Nat) : (hexLexeme count n).text? = none := by
  unfold hexLexeme
  split <;> rfl

theorem text?_hexadecimal (count n : Nat) (p : Position) (cs : List Char) :
    (hexadecimal count n p cs).lexeme.text? = none := by
  fun_induction hexadecimal count n p cs with
  | case2 _ _ _ _ _ _ _ ih => exact ih
  | case3 => rfl
  | _ => exact text?_hexLexeme _ _

theorem text?_number (p : Position) (cs : List Char) : (number p cs).lexeme.text? = none := by
  unfold number
  split
  · exact text?_hexadecimal _ _ _ _
  · exact text?_hexadecimal _ _ _ _
  · exact text?_decimal _ _ _

/-- Marks have no text. -/
theorem text?_mark (p : Position) (c : Char) (cs : List Char) :
    (mark p c cs).lexeme.text? = none := by
  unfold mark
  split
  · rfl
  · split <;> rfl

/-- What begins with a quote is a string or malformed. -/
theorem string_ne_ident (read : List Char) (p : Position) (cs : List Char) (x : String) :
    (string read p cs).lexeme ≠ .ident x := by
  fun_induction string read p cs <;> simp_all

/-- What is read as an identifier is a word that is not reserved. -/
theorem word_of_ident {p : Position} {c : Char} {cs : List Char} {x : String}
    (h : (token p c cs).lexeme = .ident x) :
    c.isAlpha ∧ Keyword.ofSpelling? x = none ∧ x.toList = (c :: cs).takeWhile isWordChar ∧
      (token p c cs).rest = (c :: cs).dropWhile isWordChar := by
  rw [token] at h ⊢
  split at h
  · next hc =>
    rw [if_pos hc]
    rw [word] at h ⊢
    dsimp only at h ⊢
    cases hk : Keyword.ofSpelling? (String.ofList ((c :: cs).takeWhile isWordChar)) with
    | some k =>
      rw [hk] at h
      cases h
    | none =>
      rw [hk] at h
      cases h
      exact ⟨hc, hk, String.toList_ofList, rfl⟩
  split at h
  · have htext := text?_number p (c :: cs)
    rw [h] at htext
    cases htext
  split at h
  · exact absurd h (string_ne_ident _ _ _ _)
  · have htext := text?_mark p c cs
    rw [h] at htext
    cases htext

/-- Only names are read as identifiers. -/
theorem isName_of_token {p : Position} {c : Char} {cs : List Char} {x : String}
    (h : (token p c cs).lexeme = .ident x) : IsName x := by
  obtain ⟨hc, hk, htext, -⟩ := word_of_ident h
  rw [List.takeWhile_cons_of_pos (isWordChar_of_isAlpha hc)] at htext
  exact ⟨⟨c, _, htext, hc, List.all_eq_true.1 List.all_takeWhile⟩, hk⟩

end Scan

theorem Token.isName_of_next {p stop : Position} {cs rest : List Char} {t : Token} {x : String}
    (h : Token.next p cs = .inr (t, stop, rest)) (hx : t.lexeme = .ident x) : IsName x := by
  rw [Token.next] at h
  split at h
  · cases h
  · cases h
    exact Scan.isName_of_token hx

/-- The identifiers of a text are names. -/
theorem TokenStream.isName_of_mem_collect {x : String} (read : List Token) (p : Position)
    (cs : List Char) (hread : .ident x ∈ read.map Token.lexeme → IsName x)
    (h : .ident x ∈ (collect read p cs).tokens.map Token.lexeme) : IsName x := by
  fun_induction collect read p cs with
  | case1 read p cs fin hnext =>
    rw [List.map_reverse, List.mem_reverse] at h
    exact hread h
  | case2 read p cs t stop rest hnext ih =>
    refine ih ?_ h
    intro hmem
    rcases List.mem_cons.1 hmem with ht | hmem
    · exact Token.isName_of_next hnext ht.symm
    · exact hread hmem

theorem isName_of_mem_source {source x : String}
    (h : .ident x ∈ (TokenStream.ofSource source).tokens.map Token.lexeme) : IsName x :=
  TokenStream.isName_of_mem_collect [] {} _ (fun h => absurd h List.not_mem_nil) h

end ScriptFuzz
