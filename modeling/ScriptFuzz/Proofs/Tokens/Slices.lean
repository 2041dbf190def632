import ScriptFuzz.Proofs.Tokens.Printing

/-!
# Texts cut into tokens

Reading the tokens of a text cuts the text into slices: blanks and comments that are skipped, and
the characters that a token is read from, whether they are a token or not. Nothing is lost and
nothing is read twice.

- `Position.behind`: the place behind a text, counted from its characters.
- `Scan.Takes`: a reader takes characters from the front, and moves on over them.
- `Slice`, `Sliced`: what is skipped and read, and how a text is made of it.
- `Token.exists_slice`, `Token.next_cases`: what one token takes.
- `exists_sliced`, `Sliced.ofSource`: every text is cut, and the tokens are those of the slices.
-/

namespace ScriptFuzz

/-! ## Places -/

namespace Position

/-- The place behind a text that starts in the first row and the first column. A line break begins a
row; in the last row a tab counts for four columns and any other character for one. -/
def behind (text : List Char) : Position :=
  let line := text.reverse.takeWhile (· != '\n')
  { row := 1 + text.count '\n', col := 1 + 4 * line.count '\t' + line.countP (· != '\t') }

theorem behind_concat (text : List Char) (c : Char) :
    behind (text ++ [c]) = (behind text).after c := by
  rw [behind, List.reverse_concat, List.count_append, List.count_singleton, after]
  by_cases hbreak : c = '\n'
  · subst hbreak
    simp [behind, Nat.add_assoc]
  rw [List.takeWhile_cons_of_pos (by simpa using hbreak), if_neg hbreak]
  by_cases htab : c = '\t'
  · subst htab
    simp [behind, Nat.mul_add, Nat.add_assoc, Nat.add_comm, Nat.add_left_comm]
  · rw [if_neg htab]
    simp [behind, hbreak, htab, Nat.add_assoc]

/-- Going over a text from the place behind another one leads behind both. -/
theorem afterAll_behind (before text : List Char) :
    (behind before).afterAll text = behind (before ++ text) := by
  induction text generalizing before with
  | nil => rw [List.append_nil, afterAll_nil]
  | cons c text ih =>
    rw [afterAll_cons, ← behind_concat, ih, List.append_assoc, List.singleton_append]

end Position

/-! ## Readers of single tokens -/

namespace Scan

/-- What was read from a text that stands at `p` are characters from its front. -/
def Takes (p : Position) (cs : List Char) (s : Scanned) : Prop :=
  ∃ word, cs = word ++ s.rest ∧ s.stop = p.afterAll word

variable {p : Position} {c : Char} {cs : List Char} {s : Scanned}

theorem Takes.nil (h₁ : s.rest = cs) (h₂ : s.stop = p) : Takes p cs s :=
  ⟨[], h₁.symm, h₂⟩

theorem Takes.cons (h : Takes (p.after c) cs s) : Takes p (c :: cs) s := by
  obtain ⟨word, hword, hstop⟩ := h
  exact ⟨c :: word, congrArg (c :: ·) hword, hstop⟩

theorem takes_word (p : Position) (cs : List Char) : Takes p cs (word p cs) :=
  ⟨cs.takeWhile isWordChar, List.takeWhile_append_dropWhile.symm, rfl⟩

theorem takes_fraction (whole : Nat) (p : Position) (cs : List Char) :
    Takes p cs (fraction whole p cs) := by
  have hsplit : cs.takeWhile Char.isDigit ++ cs.dropWhile Char.isDigit = cs :=
    List.takeWhile_append_dropWhile
  unfold fraction
  dsimp only
  split
  · next rest hrest =>
    refine ⟨cs.takeWhile Char.isDigit ++ ['f'], ?_, ?_⟩
    · rw [List.append_assoc, List.singleton_append, ← hrest, hsplit]
    · rw [Position.afterAll_append]
      rfl
  · exact ⟨cs.takeWhile Char.isDigit, hsplit.symm, rfl⟩

theorem takes_decimal (value : Nat) (p : Position) (cs : List Char) :
    Takes p cs (decimal value p cs) := by
  induction cs generalizing value p with
  | nil => exact .nil rfl rfl
  | cons c cs ih =>
    rw [decimal]
    dsimp only
    split
    · split
      · exact (ih _ _).cons
      · exact .cons (.nil rfl rfl)
    split
    · exact (takes_fraction value _ cs).cons
    · exact .nil rfl rfl

theorem takes_hexadecimal (count value : Nat) (p : Position) (cs : List Char) :
    Takes p cs (hexadecimal count value p cs) := by
  induction cs generalizing count value p with
  | nil => exact .nil rfl rfl
  | cons c cs ih =>
    rw [hexadecimal]
    split
    · split
      · exact (ih _ _ _).cons
      · exact .cons (.nil rfl rfl)
    · exact .nil rfl rfl

theorem takes_number (p : Position) (cs : List Char) : Takes p cs (number p cs) := by
  unfold number
  split
  · exact (takes_hexadecimal 0 0 _ _).cons.cons
  · exact (takes_hexadecimal 0 0 _ _).cons.cons
  · exact takes_decimal 0 p cs

theorem takes_string (read : List Char) (p : Position) (cs : List Char) :
    Takes p cs (string read p cs) := by
  fun_induction string read p cs with
  | case1 => exact .nil rfl rfl
  | case2 => exact .cons (.nil rfl rfl)
  | case3 => exact .nil rfl rfl
  | case4 => exact .cons (.nil rfl rfl)
  | case5 _ _ _ _ _ _ _ _ ih => exact ih.cons.cons
  | case6 => exact .cons (.nil rfl rfl)
  | case7 _ _ _ _ _ _ _ ih => exact ih.cons

theorem takes_mark (p : Position) (c : Char) (cs : List Char) :
    Takes p (c :: cs) (mark p c cs) := by
  unfold mark
  split
  · exact ⟨c :: cs.take 1, congrArg (c :: ·) (List.take_append_drop 1 cs).symm, rfl⟩
  · split
    · exact .cons (.nil rfl rfl)
    · exact .cons (.nil rfl rfl)

theorem takes_token (p : Position) (c : Char) (cs : List Char) :
    Takes p (c :: cs) (token p c cs) := by
  unfold token
  split
  · exact takes_word p _
  split
  · exact takes_number p _
  split
  · exact (takes_string [] _ cs).cons
  · exact takes_mark p c cs

end Scan

/-! ## What is skipped -/

/-- What may stand behind the last token: blanks and comments, where a line break need not end the
last comment. -/
inductive LastGap : List Char → Prop
  | gap {gap : List Char} (h : Gap gap) : LastGap gap
  | comment {gap text : List Char} (h : Gap gap) (ht : '\n' ∉ text) :
      LastGap (gap ++ '/' :: '/' :: text)

namespace LastGap

variable {c : Char} {cs text : List Char}

theorem blank (hc : Text.isBlank c) (h : LastGap cs) : LastGap (c :: cs) := by
  cases h with
  | gap h => exact .gap (.blank hc h)
  | comment h ht => exact .comment (.blank hc h) ht

theorem line (ht : '\n' ∉ text) (h : LastGap cs) : LastGap ('/' :: '/' :: text ++ '\n' :: cs) := by
  cases h with
  | gap h => exact .gap (.comment ht h)
  | @comment gap _ h hlast =>
    have hcomment := LastGap.comment (.comment ht h) hlast
    rwa [List.append_assoc, List.cons_append] at hcomment

end LastGap

namespace Scan

/-- How skipping ends in a text that stands at `p`: in front of a character that stays, or at the
end. -/
inductive Skipped (p : Position) : List Char → Position × List Char → Prop
  | front {gap cs : List Char} {c : Char} (hg : Gap gap) :
      Skipped p (gap ++ c :: cs) (p.afterAll gap, c :: cs)
  | all {cs : List Char} (h : LastGap cs) : Skipped p cs (p.afterAll cs, [])

variable {p : Position} {c : Char} {cs text : List Char} {r : Position × List Char}

theorem Skipped.blank (hc : Text.isBlank c) (h : Skipped (p.after c) cs r) :
    Skipped p (c :: cs) r := by
  cases h with
  | front hg => exact .front (.blank hc hg)
  | all h => exact .all (h.blank hc)

theorem Skipped.line (ht : '\n' ∉ text)
    (h : Skipped (p.afterAll ('/' :: '/' :: text ++ ['\n'])) cs r) :
    Skipped p ('/' :: '/' :: text ++ '\n' :: cs) r := by
  have hplace (cs : List Char) : (p.afterAll ('/' :: '/' :: text ++ ['\n'])).afterAll cs =
      p.afterAll ('/' :: '/' :: text ++ '\n' :: cs) := by
    rw [← Position.afterAll_append, List.append_assoc, List.singleton_append]
  cases h with
  | @front gap cs c hg =>
    have hfront : Skipped p ('/' :: '/' :: text ++ '\n' :: gap ++ c :: cs)
        (p.afterAll ('/' :: '/' :: text ++ '\n' :: gap), c :: cs) := .front (.comment ht hg)
    rwa [List.append_assoc, List.cons_append, ← hplace] at hfront
  | all h =>
    rw [hplace]
    exact .all (h.line ht)

/-- A comment goes to the end of its line, or of the text. -/
theorem skip_true (p : Position) (cs : List Char) :
    ('\n' ∉ cs ∧ skip true p cs = (p.afterAll cs, [])) ∨
      ∃ text tail, cs = text ++ '\n' :: tail ∧ '\n' ∉ text ∧
        skip true p cs = skip false (p.afterAll (text ++ ['\n'])) tail := by
  induction cs generalizing p with
  | nil => exact .inl ⟨List.not_mem_nil, rfl⟩
  | cons c cs ih =>
    by_cases hc : c = '\n'
    · subst hc
      exact .inr ⟨[], cs, rfl, List.not_mem_nil, rfl⟩
    rw [skip, if_pos rfl, bne_iff_ne.2 hc]
    have hmem {text : List Char} (h : '\n' ∉ text) : '\n' ∉ c :: text :=
      List.not_mem_cons_of_ne_of_not_mem (Ne.symm hc) h
    rcases ih (p.after c) with ⟨hcs, hskip⟩ | ⟨text, tail, rfl, htext, hskip⟩
    · exact .inl ⟨hmem hcs, hskip⟩
    · exact .inr ⟨c :: text, tail, rfl, hmem htext, hskip⟩

/-- What is skipped are blanks and comments. -/
theorem skipped_skip (p : Position) (cs : List Char) : Skipped p cs (skip false p cs) := by
  -- a comment is skipped as a whole, so the induction is on how much text is left
  induction hlength : cs.length using Nat.strongRecOn generalizing p cs with | _ n ih
  match cs with
  | [] => exact .all (.gap .nil)
  | c :: cs =>
    rw [List.length_cons] at hlength
    rw [skip, if_neg Bool.false_ne_true]
    split
    · next hc => exact (ih _ (by omega) (p.after c) cs rfl).blank hc
    split
    · next hslashes =>
      rw [Bool.and_eq_true, beq_iff_eq, beq_iff_eq, List.head?_eq_some_iff] at hslashes
      obtain ⟨rfl, cs, rfl⟩ := hslashes
      rw [skip, if_pos rfl]
      rcases skip_true ((p.after '/').after '/') cs with
        ⟨hcs, hskip⟩ | ⟨text, tail, rfl, htext, hskip⟩
      · rw [show ('/' != '\n') = true from rfl, hskip]
        exact .all (.comment .nil hcs)
      · rw [show ('/' != '\n') = true from rfl, hskip]
        rw [List.length_cons, List.length_append, List.length_cons] at hlength
        exact (ih _ (by omega) _ tail rfl).line htext
    · exact .front .nil

end Scan

/-! ## Slices -/

/-- A piece of a text that one token is read from. -/
structure Slice where
  /-- The blanks and comments in front of the token. -/
  gap : List Char
  /-- The characters that the token is read from. -/
  word : List Char
  /-- What is read. -/
  token : Token

namespace Slice

/-- All characters of a slice. -/
def text (s : Slice) : List Char := s.gap ++ s.word

/-- What holds of a slice behind the text `before`: nothing but blanks and comments is skipped, and
the token takes a character and has its place behind them. -/
structure Sound (s : Slice) (before : List Char) : Prop where
  gap : Gap s.gap
  word : s.word ≠ []
  pos : s.token.pos = .behind (before ++ s.gap)

end Slice

/-- A slice is sound behind `before`, and its token is what is read from its word, with `rest`
behind it. -/
structure Slice.Read (s : Slice) (before rest : List Char) : Prop where
  sound : s.Sound before
  token : ∃ c cs, s.word = c :: cs ∧
    Scan.token s.token.pos c (cs ++ rest) = ⟨s.token.lexeme, .behind (before ++ s.text), rest⟩

/-- A token is read from a slice. -/
theorem Token.exists_slice {before text rest : List Char} {t : Token} {stop : Position}
    (hnext : Token.next (.behind before) text = .inr (t, stop, rest)) :
    ∃ s : Slice, s.token = t ∧ text = s.text ++ rest ∧ stop = .behind (before ++ s.text) ∧
      s.Read before rest := by
  have hskipped := Scan.skipped_skip (.behind before) text
  generalize hskip : Scan.skip false (.behind before) text = r at hskipped
  cases hskipped with
  | all h =>
    rw [next, hskip] at hnext
    cases hnext
  | @front gap cs c hg =>
    rw [Position.afterAll_behind] at hskip
    obtain ⟨word, hword, hstop⟩ := Scan.takes_token (.behind (before ++ gap)) c cs
    have hlt := Scan.length_token_lt (.behind (before ++ gap)) c cs
    generalize hread : Scan.token (.behind (before ++ gap)) c cs = read at hword hstop hlt
    rw [Position.afterAll_behind, List.append_assoc] at hstop
    rw [next, hskip] at hnext
    dsimp only at hnext
    rw [hread] at hnext
    cases hnext
    -- something was taken, so the word begins with the first character
    have hne : word ≠ [] := by
      rintro rfl
      exact absurd (congrArg List.length hword) (Nat.ne_of_gt hlt)
    obtain ⟨d, ds, rfl⟩ := List.exists_cons_of_ne_nil hne
    rw [List.cons_append, List.cons.injEq] at hword
    obtain ⟨rfl, rfl⟩ := hword
    refine ⟨⟨gap, c :: ds, read.lexeme, .behind (before ++ gap)⟩, rfl, ?_, hstop, ⟨hg, hne, rfl⟩,
      c, ds, rfl, ?_⟩
    · rw [Slice.text, List.append_assoc, List.cons_append]
    · rw [Slice.text, ← hstop, hread]

/-- Behind any text, a token is read from a slice, or there is no token any more. -/
theorem Token.next_cases (before text : List Char) :
    (LastGap text ∧ Token.next (.behind before) text = .inl (.behind (before ++ text))) ∨
      ∃ (s : Slice) (rest : List Char), text = s.text ++ rest ∧ s.Sound before ∧
        Token.next (.behind before) text = .inr (s.token, .behind (before ++ s.text), rest) := by
  cases hnext : Token.next (.behind before) text with
  | inl fin =>
    have hskipped := Scan.skipped_skip (.behind before) text
    generalize hskip : Scan.skip false (.behind before) text = r at hskipped
    rw [next, hskip] at hnext
    cases hskipped with
    | all h =>
      cases hnext
      exact .inl ⟨h, by rw [Position.afterAll_behind]⟩
    | front => cases hnext
  | inr read =>
    obtain ⟨t, stop, rest⟩ := read
    obtain ⟨s, rfl, htext, rfl, hs⟩ := exists_slice hnext
    exact .inr ⟨s, rest, htext, hs.sound, rfl⟩

/-- A text behind `before` is made of slices and of `last`, which holds no token. -/
inductive Sliced : List Char → List Slice → List Char → Prop
  | nil {before last : List Char} (h : LastGap last)
      (hnext : Token.next (.behind before) last = .inl (.behind (before ++ last))) :
      Sliced before [] last
  | cons {before last : List Char} {s : Slice} {slices : List Slice} (hs : s.Sound before)
      (hnext : Token.next (.behind before) (s.text ++ (slices.flatMap Slice.text ++ last)) =
        .inr (s.token, .behind (before ++ s.text), slices.flatMap Slice.text ++ last))
      (h : Sliced (before ++ s.text) slices last) : Sliced before (s :: slices) last

/-- Every text is made of slices. -/
theorem exists_sliced (before text : List Char) :
    ∃ slices last, text = slices.flatMap Slice.text ++ last ∧ Sliced before slices last := by
  rcases Token.next_cases before text with ⟨hlast, hnext⟩ | ⟨s, rest, htext, hs, hnext⟩
  · exact ⟨[], text, rfl, .nil hlast hnext⟩
  · obtain ⟨slices, last, rfl, h⟩ := exists_sliced (before ++ s.text) rest
    subst htext
    exact ⟨s :: slices, last, by rw [List.flatMap_cons, List.append_assoc], .cons hs hnext h⟩
termination_by text.length
decreasing_by exact Token.length_next_lt hnext

namespace Sliced

variable {before last : List Char} {slices : List Slice}

theorem lastGap (h : Sliced before slices last) : LastGap last := by
  induction h with
  | nil h => exact h
  | cons _ _ _ ih => exact ih

/-- Each slice is sound behind all that is in front of it. -/
theorem sound (h : Sliced before slices last) {i : Nat} {s : Slice} (hi : slices[i]? = some s) :
    s.Sound (before ++ (slices.take i).flatMap Slice.text) := by
  induction h generalizing i with
  | nil => cases hi
  | @cons before last first slices hs _ _ ih =>
    cases i with
    | zero =>
      cases hi
      rwa [List.take_zero, List.flatMap_nil, List.append_nil]
    | succ i =>
      rw [List.take_succ_cons, List.flatMap_cons, ← List.append_assoc]
      exact ih hi

/-- There are no more slices than characters. -/
theorem length_le (h : Sliced before slices last) :
    slices.length ≤ (slices.flatMap Slice.text).length := by
  induction h with
  | nil => exact Nat.le_refl _
  | @cons _ _ s slices hs _ _ ih =>
    have hword := List.length_pos_iff.2 hs.word
    rw [List.length_cons, List.flatMap_cons, List.length_append, Slice.text, List.length_append]
    omega

/-- The tokens of a text are those of its slices. -/
theorem collect (h : Sliced before slices last) (read : List Token) :
    TokenStream.collect read (.behind before) (slices.flatMap Slice.text ++ last) =
      ⟨read.reverse ++ slices.map Slice.token,
        .behind (before ++ (slices.flatMap Slice.text ++ last))⟩ := by
  induction h generalizing read with
  | nil _ hnext =>
    rw [TokenStream.collect_eq, List.flatMap_nil, List.nil_append, hnext, List.map_nil,
      List.append_nil]
  | cons _ hnext _ ih =>
    rw [List.flatMap_cons, List.append_assoc, TokenStream.collect_eq, hnext]
    dsimp only
    rw [ih, List.reverse_cons, List.map_cons, List.append_assoc, List.append_assoc,
      List.singleton_append]

end Sliced

end ScriptFuzz
