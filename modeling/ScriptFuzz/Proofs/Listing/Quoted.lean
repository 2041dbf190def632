import ScriptFuzz.Proofs.Tokens.Printing
import ScriptFuzz.Text.Quoted

/-!
# Quoted text can be read back

The escapes of characters are a prefix code: behind an escape there can be any text, and still it is
known where the escape ends and which character it stands for. So no two texts have the same quoted
form. A quoted text stays on one line, whatever its characters are.

- `unescape`: reads an escape.
- `quoted_injective`: quoted texts determine the texts.
- `newline_not_mem_quoted`: there is no line break in a quoted text.
-/

namespace ScriptFuzz.Text

/-- The character that the first escape of a text between double quotes stands for, and the text
behind the escape. -/
def unescape : List Char → Option (Char × List Char)
  | [] => none
  | '\\' :: '0' :: cs => some ('\x00', cs)
  | '\\' :: 't' :: cs => some ('\t', cs)
  | '\\' :: 'r' :: cs => some ('\r', cs)
  | '\\' :: 'n' :: cs => some ('\n', cs)
  | '\\' :: 'u' :: '\x7b' :: cs =>
    some (.ofNat (Scan.digitsValue 16 0 (cs.takeWhile (· != '\x7d'))),
      (cs.dropWhile (· != '\x7d')).tail)
  | '\\' :: c :: cs => some (c, cs)
  | c :: cs => some (c, cs)

theorem isHexDigit_of_mem_hex {c : Char} {n : Nat} (h : c ∈ hex n) : Scan.isHexDigit c := by
  obtain ⟨k, hk, rfl⟩ := Scan.exists_digitChar_of_mem_toDigits (by decide) h
  exact (Scan.hexDigit_digitChar hk).1.1

/-- A character that is not a backslash stands for itself. -/
theorem unescape_cons {c : Char} (h : c ≠ '\\') (cs : List Char) :
    unescape (c :: cs) = some (c, cs) := by
  unfold unescape
  split <;> simp_all

/-- A character is given by its number. The closing brace ends the digits. -/
theorem unescape_hex (c : Char) (cs : List Char) :
    unescape ('\\' :: 'u' :: '\x7b' :: (hex c.toNat ++ '\x7d' :: cs)) = some (c, cs) := by
  have hdigits : ∀ d ∈ hex c.toNat, (d != '\x7d') = true := by
    intro d hd
    rw [bne_iff_ne]
    rintro rfl
    exact absurd (isHexDigit_of_mem_hex hd) (by decide)
  have hvalue : Scan.digitsValue 16 0 (hex c.toNat) = c.toNat :=
    Scan.digitsValue_toDigits (by decide) (by decide) _
  rw [unescape, List.takeWhile_append_of_pos hdigits, List.dropWhile_append_of_pos hdigits]
  simp [hvalue]

/-- An escape is read, whatever there is behind it. -/
theorem unescape_escape (c : Char) (cs : List Char) :
    unescape (escape '"' c ++ cs) = some (c, cs) := by
  by_cases hzero : c = '\x00'
  · subst hzero
    rfl
  by_cases htab : c = '\t'
  · subst htab
    rfl
  by_cases hreturn : c = '\r'
  · subst hreturn
    rfl
  by_cases hline : c = '\n'
  · subst hline
    rfl
  by_cases hmark : c = '\\' ∨ c = '"'
  · rcases hmark with rfl | rfl <;> rfl
  rw [escape, if_neg hzero, if_neg htab, if_neg hreturn, if_neg hline, if_neg hmark]
  by_cases hprintable : isPrintable c
  · rw [if_pos hprintable]
    refine unescape_cons ?_ cs
    intro hc
    exact hmark (.inl hc)
  · rw [if_neg hprintable, List.cons_append, List.cons_append, List.cons_append,
      List.append_assoc]
    exact unescape_hex c cs

/-- Escapes are not empty. -/
theorem escape_ne_nil (c : Char) : escape '"' c ≠ [] := by
  intro h
  have hread := unescape_escape c []
  rw [h] at hread
  cases hread

theorem flatMap_escape_injective {cs ds : List Char}
    (h : cs.flatMap (escape '"') = ds.flatMap (escape '"')) : cs = ds := by
  induction cs generalizing ds with
  | nil =>
    cases ds with
    | nil => rfl
    | cons d ds => exact absurd (List.append_eq_nil_iff.1 h.symm).1 (escape_ne_nil d)
  | cons c cs ih =>
    cases ds with
    | nil => exact absurd (List.append_eq_nil_iff.1 h).1 (escape_ne_nil c)
    | cons d ds =>
      rw [List.flatMap_cons, List.flatMap_cons] at h
      have hread := congrArg unescape h
      rw [unescape_escape, unescape_escape, Option.some.injEq, Prod.mk.injEq] at hread
      rw [hread.1, ih hread.2]

/-- No two texts have the same quoted form. -/
theorem quoted_injective {s t : String} (h : quoted s = quoted t) : s = t := by
  rw [quoted, quoted, enclose, enclose, String.ofList_inj, List.cons_inj_right,
    List.append_cancel_right_eq] at h
  exact String.toList_inj.1 (flatMap_escape_injective h)

/-- A line break is written as an escape, and there is none in other escapes. -/
theorem newline_not_mem_escape (c : Char) : '\n' ∉ escape '"' c := by
  by_cases hzero : c = '\x00'
  · subst hzero
    decide
  by_cases htab : c = '\t'
  · subst htab
    decide
  by_cases hreturn : c = '\r'
  · subst hreturn
    decide
  by_cases hline : c = '\n'
  · subst hline
    decide
  have hne : '\n' ≠ c := Ne.symm hline
  rw [escape, if_neg hzero, if_neg htab, if_neg hreturn, if_neg hline]
  by_cases hmark : c = '\\' ∨ c = '"'
  · simpa [if_pos hmark] using hne
  rw [if_neg hmark]
  by_cases hprintable : isPrintable c
  · simpa [if_pos hprintable] using hne
  · rw [if_neg hprintable]
    have hhex : '\n' ∉ hex c.toNat := by
      intro hmem
      exact absurd (isHexDigit_of_mem_hex hmem) (by decide)
    simpa using hhex

/-- A quoted text stays on one line. -/
theorem newline_not_mem_quoted (s : String) : '\n' ∉ (quoted s).toList := by
  rw [quoted, enclose, String.toList_ofList]
  simp [newline_not_mem_escape]

end ScriptFuzz.Text
