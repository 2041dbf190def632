import ScriptFuzz.Text.Utf8

/-!
# Reading the bytes of a text

The bytes of a text are read as this text (`ofUtf8_utf8`). A character takes its lead byte, which
tells the reader how many more come and in which range the next one lies, and then bytes that hold
six bits each. No such byte is below 0x80, so a byte below is a character of its own
(`ofNat_mem_toList`).
-/

namespace ScriptFuzz.Text

namespace Reader

variable {read : List Char} {p : Partial} {b : UInt8}

theorem step_single {c : Char} (h : lead b = some (.inl c)) :
    step ⟨read, none⟩ b = ⟨c :: read, none⟩ := by
  simp only [step, start, h]

theorem step_begin (h : lead b = some (.inr p)) : step ⟨read, none⟩ b = ⟨read, some p⟩ := by
  simp only [step, start, h]

/-- A byte in the range adds its six bits to a character that needs more. -/
theorem step_more (hlow : p.low ≤ b) (hhigh : b ≤ p.high) (hmissing : 1 < p.missing) :
    step ⟨read, some p⟩ b =
      ⟨read, some ⟨p.bits * 64 + b.toNat % 64, p.missing - 1, 0x80, 0xBF⟩⟩ := by
  have hrange : (p.low ≤ b && b ≤ p.high) = true := by simp [hlow, hhigh]
  simp only [step, hrange, if_true]
  rw [if_neg (Nat.not_le.2 hmissing)]

/-- The last byte of a character completes it. -/
theorem step_last (hlow : p.low ≤ b) (hhigh : b ≤ p.high) (hmissing : p.missing = 1) :
    step ⟨read, some p⟩ b = ⟨Char.ofNat (p.bits * 64 + b.toNat % 64) :: read, none⟩ := by
  have hrange : (p.low ≤ b && b ≤ p.high) = true := by simp [hlow, hhigh]
  simp only [step, hrange, if_true]
  rw [if_pos (Nat.le_of_eq hmissing)]

end Reader

/-! ## Bytes that hold six bits -/

/-- The byte that holds the low six bits of a number. -/
def tail (n : Nat) : UInt8 := UInt8.ofNat (n % 64 + 128)

theorem toNat_tail (n : Nat) : (tail n).toNat = n % 64 + 128 := by
  rw [tail, UInt8.toNat_ofNat']
  omega

theorem tail_le (n : Nat) : tail n ≤ 0xBF := by
  rw [UInt8.le_iff_toNat_le, toNat_tail]
  show _ ≤ 191
  omega

theorem le_tail (n : Nat) : 0x80 ≤ tail n := by
  rw [UInt8.le_iff_toNat_le, toNat_tail]
  exact Nat.le_add_left 128 _

theorem toNat_tail_mod (n : Nat) : (tail n).toNat % 64 = n % 64 := by
  rw [toNat_tail]
  omega

/-! ## Lead bytes -/

/-- The lead byte of a character of two bytes. -/
theorem lead_two {v : Nat} (hlow : 0x80 ≤ v) (hhigh : v < 0x800) :
    lead (UInt8.ofNat (v / 64 % 32 + 192)) = some (.inr ⟨v / 64, 1, 0x80, 0xBF⟩) := by
  have hb : (UInt8.ofNat (v / 64 % 32 + 192)).toNat = v / 64 + 192 := by
    rw [UInt8.toNat_ofNat']
    omega
  simp only [lead, hb]
  rw [if_neg (by omega), if_neg (by omega), if_pos (by omega), Nat.add_sub_cancel]

/-- The lead byte of a character of three bytes. The second byte lies in the range that it leaves,
since the number is at least 0x800 and no surrogate. -/
theorem lead_three {v : Nat} (hlow : 0x800 ≤ v) (hhigh : v < 0x10000)
    (hchar : v < 0xD800 ∨ 0xDFFF < v) :
    ∃ low high, lead (UInt8.ofNat (v / 4096 % 16 + 224)) = some (.inr ⟨v / 4096, 2, low, high⟩) ∧
      low ≤ tail (v / 64) ∧ tail (v / 64) ≤ high := by
  have hb : (UInt8.ofNat (v / 4096 % 16 + 224)).toNat = v / 4096 + 224 := by
    rw [UInt8.toNat_ofNat']
    omega
  simp only [lead, hb, UInt8.le_iff_toNat_le, toNat_tail]
  rw [if_neg (by omega), if_neg (by omega), if_neg (by omega)]
  by_cases hzero : v / 4096 + 224 = 0xE0
  · rw [if_pos hzero]
    refine ⟨0xA0, 0xBF, ?_, ?_, ?_⟩
    · rw [show v / 4096 = 0 by omega]
    · show 160 ≤ _
      omega
    · show _ ≤ 191
      omega
  rw [if_neg hzero]
  by_cases hd : v / 4096 + 224 = 0xED
  · rw [if_pos hd]
    refine ⟨0x80, 0x9F, ?_, ?_, ?_⟩
    · rw [show v / 4096 = 0xD by omega]
    · show 128 ≤ _
      omega
    · show _ ≤ 159
      omega
  rw [if_neg hd, if_pos (by omega), Nat.add_sub_cancel]
  refine ⟨0x80, 0xBF, rfl, ?_, ?_⟩
  · show 128 ≤ _
    omega
  · show _ ≤ 191
    omega

/-- The lead byte of a character of four bytes. The second byte lies in the range that it leaves,
since the number is at least 0x10000 and at most 0x10FFFF. -/
theorem lead_four {v : Nat} (hlow : 0x10000 ≤ v) (hhigh : v < 0x110000) :
    ∃ low high, lead (UInt8.ofNat (v / 262144 % 8 + 240)) =
        some (.inr ⟨v / 262144, 3, low, high⟩) ∧
      low ≤ tail (v / 4096) ∧ tail (v / 4096) ≤ high := by
  have hb : (UInt8.ofNat (v / 262144 % 8 + 240)).toNat = v / 262144 + 240 := by
    rw [UInt8.toNat_ofNat']
    omega
  simp only [lead, hb, UInt8.le_iff_toNat_le, toNat_tail]
  rw [if_neg (by omega), if_neg (by omega), if_neg (by omega), if_neg (by omega),
    if_neg (by omega), if_neg (by omega)]
  by_cases hzero : v / 262144 + 240 = 0xF0
  · rw [if_pos hzero]
    refine ⟨0x90, 0xBF, ?_, ?_, ?_⟩
    · rw [show v / 262144 = 0 by omega]
    · show 144 ≤ _
      omega
    · show _ ≤ 191
      omega
  rw [if_neg hzero]
  by_cases hfour : v / 262144 + 240 = 0xF4
  · rw [if_neg (by omega), if_pos hfour]
    refine ⟨0x80, 0x8F, ?_, ?_, ?_⟩
    · rw [show v / 262144 = 4 by omega]
    · show 128 ≤ _
      omega
    · show _ ≤ 143
      omega
  rw [if_pos (by omega), Nat.add_sub_cancel]
  refine ⟨0x80, 0xBF, rfl, ?_, ?_⟩
  · show 128 ≤ _
    omega
  · show _ ≤ 191
    omega

/-! ## Characters and texts -/

/-- The code points of characters: no surrogates, and none above 0x10FFFF. -/
theorem toNat_char (c : Char) :
    c.toNat < 0x110000 ∧ (c.toNat < 0xD800 ∨ 0xDFFF < c.toNat) := by
  have h : c.toNat < 0xD800 ∨ 0xDFFF < c.toNat ∧ c.toNat < 0x110000 := c.valid
  omega

/-- The bytes of a character: one, or a lead byte and as many tails as it announces. -/
theorem utf8EncodeChar_eq (c : Char) :
    String.utf8EncodeChar c =
      if c.toNat ≤ 0x7F then [UInt8.ofNat c.toNat]
      else if c.toNat ≤ 0x7FF then [UInt8.ofNat (c.toNat / 64 % 32 + 192), tail c.toNat]
      else if c.toNat ≤ 0xFFFF then
        [UInt8.ofNat (c.toNat / 4096 % 16 + 224), tail (c.toNat / 64), tail c.toNat]
      else
        [UInt8.ofNat (c.toNat / 262144 % 8 + 240), tail (c.toNat / 4096), tail (c.toNat / 64),
          tail c.toNat] := rfl

/-- The bytes of a character are read as this character. -/
theorem foldl_utf8EncodeChar (read : List Char) (c : Char) :
    (String.utf8EncodeChar c).foldl Reader.step ⟨read, none⟩ = ⟨c :: read, none⟩ := by
  obtain ⟨hmax, hchar⟩ := toNat_char c
  have hofNat : Char.ofNat c.toNat = c := Char.ofNat_toNat c
  rw [utf8EncodeChar_eq]
  generalize c.toNat = v at *
  split
  · next hone =>
    have hb : (UInt8.ofNat v).toNat = v := by
      rw [UInt8.toNat_ofNat']
      omega
    have hlead : lead (UInt8.ofNat v) = some (.inl c) := by
      simp only [lead, hb, hofNat]
      exact if_pos (by omega)
    rw [List.foldl_cons, Reader.step_single hlead, List.foldl_nil]
  split
  · next htwo =>
    have hbits : v / 64 * 64 + v % 64 = v := by omega
    rw [List.foldl_cons, Reader.step_begin (lead_two (by omega) (by omega)), List.foldl_cons,
      Reader.step_last (le_tail v) (tail_le v) rfl, List.foldl_nil, toNat_tail_mod, hbits, hofNat]
  split
  · next hthree =>
    obtain ⟨low, high, hlead, hlow, hhigh⟩ := lead_three (by omega) (by omega) hchar
    have hbits : (v / 4096 * 64 + v / 64 % 64) * 64 + v % 64 = v := by omega
    rw [List.foldl_cons, Reader.step_begin hlead, List.foldl_cons,
      Reader.step_more hlow hhigh Nat.one_lt_two, List.foldl_cons,
      Reader.step_last (le_tail v) (tail_le v) rfl, List.foldl_nil, toNat_tail_mod,
      toNat_tail_mod, hbits, hofNat]
  · next hfour =>
    obtain ⟨low, high, hlead, hlow, hhigh⟩ := lead_four (by omega) hmax
    have hbits : ((v / 262144 * 64 + v / 4096 % 64) * 64 + v / 64 % 64) * 64 + v % 64 = v := by
      omega
    rw [List.foldl_cons, Reader.step_begin hlead, List.foldl_cons,
      Reader.step_more hlow hhigh (Nat.lt_add_left 1 Nat.one_lt_two), List.foldl_cons,
      Reader.step_more (le_tail _) (tail_le _) Nat.one_lt_two, List.foldl_cons,
      Reader.step_last (le_tail v) (tail_le v) rfl, List.foldl_nil, toNat_tail_mod,
      toNat_tail_mod, toNat_tail_mod, hbits, hofNat]

/-- The bytes of a text are read as this text. -/
theorem ofUtf8_utf8 (s : String) : ofUtf8 (utf8 s) = s := by
  have hfold (cs read : List Char) :
      (cs.flatMap String.utf8EncodeChar).foldl Reader.step ⟨read, none⟩ =
        ⟨cs.reverse ++ read, none⟩ := by
    induction cs generalizing read with
    | nil => rfl
    | cons c cs ih =>
      rw [List.flatMap_cons, List.foldl_append, foldl_utf8EncodeChar, ih, List.reverse_cons,
        List.append_assoc, List.singleton_append]
  show ((s.toList.flatMap String.utf8EncodeChar).foldl Reader.step ⟨[], none⟩).text = s
  rw [hfold, List.append_nil]
  show String.ofList s.toList.reverse.reverse = s
  rw [List.reverse_reverse, String.ofList_toList]

/-- A byte of a character is the only one, or at least 0x80. -/
theorem toNat_of_mem_utf8EncodeChar {c : Char} {b : UInt8} (h : b ∈ String.utf8EncodeChar c) :
    b.toNat = c.toNat ∨ 0x80 ≤ b.toNat := by
  have hlead {n k : Nat} (hk : 0x80 ≤ k) (hn : n + k < 0x100) :
      0x80 ≤ (UInt8.ofNat (n + k)).toNat := by
    rw [UInt8.toNat_ofNat']
    omega
  have htail (n : Nat) : 0x80 ≤ (tail n).toNat := by
    rw [toNat_tail]
    exact Nat.le_add_left 128 _
  rw [utf8EncodeChar_eq] at h
  split at h
  · refine .inl ?_
    rw [List.mem_singleton.1 h, UInt8.toNat_ofNat']
    omega
  refine .inr ?_
  split at h
  · simp only [List.mem_cons, List.not_mem_nil, or_false] at h
    rcases h with rfl | rfl
    · exact hlead (by decide) (by omega)
    · exact htail _
  split at h
  · simp only [List.mem_cons, List.not_mem_nil, or_false] at h
    rcases h with rfl | rfl | rfl
    · exact hlead (by decide) (by omega)
    · exact htail _
    · exact htail _
  · simp only [List.mem_cons, List.not_mem_nil, or_false] at h
    rcases h with rfl | rfl | rfl | rfl
    · exact hlead (by decide) (by omega)
    · exact htail _
    · exact htail _
    · exact htail _

/-- A byte below 0x80 in a text is a character of the text. -/
theorem ofNat_mem_toList {s : String} {b : UInt8} (h : b ∈ utf8 s) (hb : b.toNat < 0x80) :
    Char.ofNat b.toNat ∈ s.toList := by
  obtain ⟨c, hc, hmem⟩ := List.mem_flatMap.1 h
  rcases toNat_of_mem_utf8EncodeChar hmem with hsame | hwide
  · rwa [hsame, Char.ofNat_toNat]
  · exact absurd hb (Nat.not_lt.2 hwide)

end ScriptFuzz.Text
