import ScriptFuzz.Proofs.Tokens.Slices

/-!
# Texts joined by a line break

No token goes over a line break. So where a text without malformed tokens is followed by a line
break and more text, its tokens stay the same and at their places, and the tokens of the text behind
it follow (`tokens_newline`).

A text that ends inside a string is different: behind it, the fault of its last token is another
one. So the lemmas about strings and tokens ask that nothing is malformed.
-/

namespace ScriptFuzz

namespace Scan

/-- The same with more text behind it. -/
def Scanned.append (s : Scanned) (more : List Char) : Scanned := { s with rest := s.rest ++ more }

variable (p : Position) (cs more : List Char)

/-- A run of characters of one class ends at a line break. -/
theorem takeWhile_newline {f : Char → Bool} (hf : f '\n' = false) :
    (cs ++ '\n' :: more).takeWhile f = cs.takeWhile f ∧
      (cs ++ '\n' :: more).dropWhile f = cs.dropWhile f ++ '\n' :: more := by
  induction cs with
  | nil => simp [hf]
  | cons c cs ih =>
    cases hc : f c with
    | true => simpa [hc] using ih
    | false => simp [hc]

/-- Blanks and comments are skipped up to the same place; if that is the end of the text, then the
line break is skipped as well. -/
theorem skip_newline (inComment : Bool) :
    skip inComment p (cs ++ '\n' :: more) =
      match skip inComment p cs with
      | (stop, []) => skip false (stop.after '\n') more
      | (stop, c :: rest) => (stop, c :: rest ++ '\n' :: more) := by
  induction cs generalizing inComment p with
  | nil => cases inComment <;> rfl
  | cons c cs ih =>
    have hhead : ((cs ++ '\n' :: more).head? == some '/') = (cs.head? == some '/') := by
      cases cs <;> rfl
    rw [List.cons_append, skip, skip, hhead]
    split
    · exact ih _ _
    split
    · exact ih _ _
    split
    · exact ih _ _
    · rfl

theorem word_newline : word p (cs ++ '\n' :: more) = (word p cs).append ('\n' :: more) := by
  obtain ⟨htake, hdrop⟩ := takeWhile_newline cs more (f := isWordChar) (by decide)
  rw [word, htake, hdrop]
  rfl

theorem fraction_newline (whole : Nat) :
    fraction whole p (cs ++ '\n' :: more) = (fraction whole p cs).append ('\n' :: more) := by
  obtain ⟨htake, hdrop⟩ := takeWhile_newline cs more (f := Char.isDigit) (by decide)
  unfold fraction
  rw [htake, hdrop]
  dsimp only
  cases cs.dropWhile Char.isDigit with
  | nil => rfl
  | cons c rest =>
    by_cases hc : c = 'f'
    · subst hc
      rfl
    · rw [List.cons_append]
      split
      · next heq => exact absurd (List.cons.inj heq).1 hc
      split
      · next heq => exact absurd (List.cons.inj heq).1 hc
      · rfl

theorem decimal_newline (value : Nat) :
    decimal value p (cs ++ '\n' :: more) = (decimal value p cs).append ('\n' :: more) := by
  induction cs generalizing value p with
  | nil => rfl
  | cons c cs ih =>
    rw [List.cons_append, decimal, decimal]
    dsimp only
    split
    · split
      · exact ih _ _
      · rfl
    split
    · exact fraction_newline _ cs more _
    · rfl

theorem hexadecimal_newline (count value : Nat) :
    hexadecimal count value p (cs ++ '\n' :: more) =
      (hexadecimal count value p cs).append ('\n' :: more) := by
  induction cs generalizing count value p with
  | nil => rfl
  | cons c cs ih =>
    rw [List.cons_append, hexadecimal, hexadecimal]
    split
    · split
      · exact ih _ _ _
      · rfl
    · rfl

theorem number_newline : number p (cs ++ '\n' :: more) = (number p cs).append ('\n' :: more) := by
  match cs with
  | [] => rfl
  | [c] =>
    -- a zero at the end is not joined by what follows the line break
    have hplain (next : Char) (rest : List Char) (h : c :: '\n' :: more = '0' :: next :: rest) :
        next ≠ 'x' ∧ next ≠ 'X' := by
      cases h
      decide
    have hplain' (next : Char) (rest : List Char) (h : [c] = '0' :: next :: rest) :
        next ≠ 'x' ∧ next ≠ 'X' := by
      cases h
    rw [List.singleton_append, number_eq_decimal hplain, number_eq_decimal hplain']
    exact decimal_newline p [c] more 0
  | c :: x :: cs =>
    by_cases hx : c = '0' ∧ (x = 'x' ∨ x = 'X')
    · obtain ⟨rfl, rfl | rfl⟩ := hx
      · exact hexadecimal_newline _ cs more 0 0
      · exact hexadecimal_newline _ cs more 0 0
    · have hplain (cs : List Char) (next : Char) (rest : List Char)
          (h : c :: x :: cs = '0' :: next :: rest) : next ≠ 'x' ∧ next ≠ 'X' := by
        cases h
        simpa using hx
      rw [List.cons_append, List.cons_append, number_eq_decimal (hplain _),
        number_eq_decimal (hplain _)]
      exact decimal_newline p (c :: x :: cs) more 0

theorem string_newline (read : List Char)
    (h : (string read p cs).lexeme.terminal ≠ .malformed) :
    string read p (cs ++ '\n' :: more) = (string read p cs).append ('\n' :: more) := by
  fun_induction string read p cs with
  | case1 => exact absurd rfl h
  | case2 =>
    rw [List.cons_append, string.eq_def]
    exact if_pos rfl
  | case3 => exact absurd rfl h
  | case4 => exact absurd rfl h
  | case5 read p e cs d hd hquote hraw ih =>
    rw [List.cons_append, List.cons_append, string, if_neg hquote, if_neg hraw, if_pos rfl, hd]
    exact ih h
  | case6 => exact absurd rfl h
  | case7 read p c cs hquote hraw hslash ih =>
    rw [List.cons_append, string.eq_def]
    dsimp only
    rw [if_neg hquote, if_neg hraw, if_neg hslash]
    exact ih h

theorem mark_newline (c : Char) :
    mark p c (cs ++ '\n' :: more) = (mark p c cs).append ('\n' :: more) := by
  cases cs with
  | nil =>
    have hnone : Mark.ofSpelling? [c, '\n'] = none := by
      refine List.find?_eq_none.2 ?_
      intro m _
      cases m <;> simp [Mark.spelling]
    unfold mark
    rw [List.nil_append, List.take_succ_cons, List.take_zero, hnone]
    dsimp only
    rw [List.take_nil]
    cases Mark.ofSpelling? [c] <;> rfl
  | cons d cs =>
    unfold mark
    rw [List.cons_append, List.take_succ_cons, List.take_succ_cons, List.take_zero, List.take_zero]
    cases Mark.ofSpelling? [c, d] with
    | some m => rfl
    | none => cases Mark.ofSpelling? [c] <;> rfl

/-- A token that is not malformed is read in the same way. -/
theorem token_newline (c : Char) (h : (token p c cs).lexeme.terminal ≠ .malformed) :
    token p c (cs ++ '\n' :: more) = (token p c cs).append ('\n' :: more) := by
  unfold token at h ⊢
  split
  · exact word_newline p (c :: cs) more
  split
  · exact number_newline p (c :: cs) more
  split
  · next halpha hdigit hquote =>
    rw [if_neg halpha, if_neg hdigit, if_pos hquote] at h
    exact string_newline _ cs more [] h
  · exact mark_newline p cs more c

end Scan

/-! ## Whole texts -/

variable {p : Position} {cs more : List Char}

/-- Behind the last token the line break is skipped, and the text behind it is looked at. -/
theorem Token.next_newline_of_end {fin : Position} (h : Token.next p cs = .inl fin) :
    Token.next p (cs ++ '\n' :: more) = Token.next (fin.after '\n') more := by
  rw [next] at h ⊢
  rw [Scan.skip_newline]
  rcases hskip : Scan.skip false p cs with ⟨stop, _ | ⟨c, cs'⟩⟩
  · rw [hskip] at h
    cases h
    rfl
  · rw [hskip] at h
    cases h

theorem Token.next_newline_of_token {t : Token} {stop : Position} {rest : List Char}
    (h : Token.next p cs = .inr (t, stop, rest)) (ht : t.lexeme.terminal ≠ .malformed) :
    Token.next p (cs ++ '\n' :: more) = .inr (t, stop, rest ++ '\n' :: more) := by
  rw [next] at h ⊢
  rw [Scan.skip_newline]
  rcases hskip : Scan.skip false p cs with ⟨start, _ | ⟨c, cs'⟩⟩
  · rw [hskip] at h
    cases h
  · rw [hskip] at h
    cases h
    dsimp only
    rw [List.cons_append]
    dsimp only
    rw [Scan.token_newline _ _ _ c ht]
    rfl

/-- If none of its tokens is malformed, a text is read as before up to the line break behind it. -/
theorem Sliced.collect_newline {before last : List Char} {slices : List Slice}
    (h : Sliced before slices last)
    (hsound : ∀ s ∈ slices, s.token.lexeme.terminal ≠ .malformed) (read : List Token)
    (more : List Char) :
    TokenStream.collect read (.behind before) (slices.flatMap Slice.text ++ last ++ '\n' :: more) =
      TokenStream.collect ((slices.map Slice.token).reverse ++ read)
        (.behind (before ++ (slices.flatMap Slice.text ++ last) ++ ['\n'])) more := by
  induction h generalizing read with
  | nil _ hnext =>
    rw [List.flatMap_nil, List.nil_append, TokenStream.collect_eq,
      Token.next_newline_of_end hnext, ← Position.behind_concat, TokenStream.collect_eq]
    rfl
  | @cons before last s slices _ hnext _ ih =>
    obtain ⟨hs, hslices⟩ := List.forall_mem_cons.1 hsound
    rw [List.flatMap_cons, List.append_assoc s.text, TokenStream.collect_eq,
      Token.next_newline_of_token hnext hs]
    dsimp only
    rw [ih hslices, List.map_cons, List.reverse_cons, List.append_assoc _ [s.token],
      List.append_assoc before]
    rfl

/-- The rows of a text are above the rows behind the line break that follows it. -/
theorem Position.row_lt_row_behind {text before after : List Char} (h : before <+: text) :
    (behind before).row < (behind (text ++ ['\n'] ++ after)).row := by
  have hle := h.sublist.count_le '\n'
  rw [behind, behind, List.count_append, List.count_append, List.count_singleton_self]
  dsimp only
  omega

/-- If no token of a source is malformed, then these are the first tokens of the source with a line
break and more text behind it, at the same places. The others, and the end, are in rows below. -/
theorem tokens_newline (a b : String)
    (h : ∀ t ∈ (TokenStream.ofSource a).tokens, t.lexeme.terminal ≠ .malformed) :
    ∃ later fin, TokenStream.ofSource (a ++ "\n" ++ b) =
        ⟨(TokenStream.ofSource a).tokens ++ later, fin⟩ ∧
      ∀ before, before <+: a.toList → (Position.behind before).row < fin.row ∧
        ∀ t ∈ later, (Position.behind before).row < t.pos.row := by
  obtain ⟨slices, last, htext, hslices⟩ := exists_sliced [] a.toList
  obtain ⟨slices', last', htext', hslices'⟩ := exists_sliced (a.toList ++ ['\n']) b.toList
  have hfirst : TokenStream.ofSource a = ⟨slices.map Slice.token, .behind a.toList⟩ := by
    rw [TokenStream.ofSource, htext]
    exact hslices.collect []
  rw [hfirst] at h ⊢
  have hsource : (a ++ "\n" ++ b).toList =
      slices.flatMap Slice.text ++ last ++ '\n' :: b.toList := by
    rw [String.toList_append, String.toList_append, ← htext, List.append_assoc]
    rfl
  refine ⟨slices'.map Slice.token, .behind (a.toList ++ ['\n'] ++ b.toList), ?_, ?_⟩
  · have hread := hslices.collect_newline
      (fun s hs => h _ (List.mem_map_of_mem hs)) [] b.toList
    rw [List.nil_append, ← htext, htext'] at hread
    rw [TokenStream.ofSource, hsource, ← htext, htext']
    refine hread.trans ?_
    rw [hslices'.collect, List.append_nil, List.reverse_reverse]
  · intro before hbefore
    refine ⟨Position.row_lt_row_behind hbefore, ?_⟩
    intro t ht
    obtain ⟨s, hs, rfl⟩ := List.mem_map.1 ht
    obtain ⟨i, hi⟩ := List.getElem?_of_mem hs
    rw [(hslices'.sound hi).pos, List.append_assoc]
    exact Position.row_lt_row_behind hbefore

end ScriptFuzz
