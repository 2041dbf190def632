import Mathlib
import ScriptFuzz.Machine.Instruction
import ScriptFuzz.Proofs.Listing.Pieces
import ScriptFuzz.Proofs.Listing.Quoted

/-!
# The lines of a listing

A listing has one line for the head of a method, one for each instruction, and a blank line behind
the method. Head and instructions are put together so that they can be taken apart again: names,
numbers and operations contain none of the marks that follow them, and what is noted beside an
instruction stands at the end of its line.

- `Instruction.text_injective`: instructions are known from how they are listed.
- `Method.header`, `Method.line`: the lines of a method.
- `Method.eq_of_header`, `Method.eq_of_line`: what is known from a line.
- `Script.splitOn_disassembly`, `Script.lines_of_disassembly`: the lines of a listing, and those of
  each method in it.
-/

namespace ScriptFuzz

/-! ## Words and numbers -/

theorem IsName.toList_ne_nil {x : String} (h : IsName x) : x.toList ≠ [] := by
  obtain ⟨⟨c, cs, hx, -, -⟩, -⟩ := h
  rw [hx]
  exact List.cons_ne_nil c cs

/-- There are only letters, digits and underscores in a name. -/
theorem IsName.not_mem_toList {x : String} (h : IsName x) {c : Char}
    (hc : Scan.isWordChar c = false) : c ∉ x.toList := by
  obtain ⟨⟨d, ds, hx, hd, hds⟩, -⟩ := h
  rw [hx, List.mem_cons]
  rintro (rfl | hmem)
  · exact Bool.noConfusion (hc.symm.trans (Scan.isWordChar_of_isAlpha hd))
  · exact Bool.noConfusion (hc.symm.trans (hds c hmem))

/-- Numbers are listed in decimal digits. -/
theorem isDigit_of_mem_toString {n : Nat} {c : Char} (h : c ∈ (toString n).toList) : c.isDigit := by
  have hmem : c ∈ Nat.toDigits 10 n := by
    rw [← String.toList_ofList (l := Nat.toDigits 10 n)]
    exact h
  obtain ⟨k, hk, rfl⟩ := Scan.exists_digitChar_of_mem_toDigits (by decide) hmem
  exact (by decide : ∀ k < 10, k.digitChar.isDigit) k hk

theorem toString_ne_nil (n : Nat) : (toString n).toList ≠ [] := by
  show (String.ofList (Nat.toDigits 10 n)).toList ≠ []
  rw [String.toList_ofList]
  exact Nat.toDigits_ne_nil

/-! ## Instructions -/

namespace Instruction

variable {i j : Instruction}

/-- An operation is known from its word and its operands. -/
theorem ofMnemonic?_mnemonic (i : Instruction) :
    ofMnemonic? i.mnemonic (i.operands.getD 0 0) (i.operands.getD 1 0) = some i := by
  cases i with
  | arith op => cases op <;> rfl
  | _ => rfl

theorem eq_of_mnemonic (hm : i.mnemonic = j.mnemonic) (ho : i.operands = j.operands) : i = j := by
  have hi := ofMnemonic?_mnemonic i
  rw [hm, ho, ofMnemonic?_mnemonic] at hi
  exact (Option.some.inj hi).symm

theorem isUpper_of_mem_mnemonic {c : Char} (h : c ∈ i.mnemonic.toList) : c.isUpper := by
  have hall : i.mnemonic.toList.all Char.isUpper := by
    cases i with
    | arith op => cases op <;> decide
    | _ => dsimp only [mnemonic]; decide
  exact List.all_eq_true.1 hall c h

/-- The operands as they are listed. -/
def operandText (i : Instruction) : List Char :=
  [',', ' '].intercalate (i.operands.map fun n => (toString n).toList)

theorem operandText_injective (h : i.operandText = j.operandText) : i.operands = j.operands := by
  have hmarked : ∀ i : Instruction, ∀ piece ∈ i.operands.map fun n => (toString n).toList,
      piece ≠ [] ∧ ',' ∉ piece := by
    intro i
    refine List.forall_mem_map.2 ?_
    intro n _
    exact ⟨toString_ne_nil n, fun h => absurd (isDigit_of_mem_toString h) (by decide)⟩
  have hmap := intercalate_injective (hmarked i) (hmarked j) h
  refine List.map_injective_iff.2 ?_ hmap
  intro m n hmn
  exact Nat.repr_injective (String.toList_inj.1 hmn)

theorem toList_text (i : Instruction) :
    i.text.toList =
      i.mnemonic.toList ++ if i.operands = [] then [] else ' ' :: i.operandText := by
  rw [text, operandText]
  cases i.operands with
  | nil => simp
  | cons n ns => simp [String.toList_intercalate, Function.comp_def]

/-- Instructions are known from how they are listed. -/
theorem text_injective (h : i.text = j.text) : i = j := by
  have hblank : ∀ i : Instruction, ' ' ∉ i.mnemonic.toList := by
    intro i hmem
    exact absurd (isUpper_of_mem_mnemonic hmem) (by decide)
  have hhead : ∀ i : Instruction,
      ∀ c ∈ (if i.operands = [] then [] else ' ' :: i.operandText).head?, c = ' ' := by
    intro i c hc
    split at hc
    · cases hc
    · exact (Option.some.inj hc).symm
  have hlist := congrArg String.toList h
  rw [toList_text, toList_text] at hlist
  obtain ⟨hword, hrest⟩ :=
    append_inj_of_marked (hblank i) (hblank j) (hhead i) (hhead j) hlist
  refine eq_of_mnemonic (String.toList_inj.1 hword) ?_
  by_cases hi : i.operands = []
  · by_cases hj : j.operands = []
    · rw [hi, hj]
    · rw [if_pos hi, if_neg hj] at hrest
      cases hrest
  · by_cases hj : j.operands = []
    · rw [if_neg hi, if_pos hj] at hrest
      cases hrest
    · rw [if_neg hi, if_neg hj] at hrest
      exact operandText_injective (List.tail_eq_of_cons_eq hrest)

/-- There are only words, numbers, commas and blanks in a listed instruction. -/
theorem mem_text {c : Char} (h : c ∈ i.text.toList) :
    c.isUpper ∨ c.isDigit ∨ c = ',' ∨ c = ' ' := by
  rw [toList_text, List.mem_append] at h
  rcases h with hword | hrest
  · exact .inl (isUpper_of_mem_mnemonic hword)
  split at hrest
  · cases hrest
  rcases List.mem_cons.1 hrest with hblank | hoperands
  · exact .inr (.inr (.inr hblank))
  rcases mem_of_mem_intercalate hoperands with hsep | ⟨piece, hpiece, hmem⟩
  · exact .inr (.inr (List.mem_pair.1 hsep))
  · obtain ⟨n, -, rfl⟩ := List.mem_map.1 hpiece
    exact .inr (.inl (isDigit_of_mem_toString hmem))

end Instruction

/-! ## Methods -/

namespace Method

variable {m m' : Method}

/-- Texts that are put behind a text one after the other. -/
theorem toList_foldl {β : Type} {g : String → β → String} (f : β → List Char)
    (h : ∀ out x, (g out x).toList = out.toList ++ f x) (l : List β) (out : String) :
    (l.foldl g out).toList = out.toList ++ l.flatMap f := by
  induction l generalizing out with
  | nil => simp
  | cons x l ih => rw [List.foldl_cons, ih, h, List.append_assoc, List.flatMap_cons]

/-- The line at the head of a method. -/
def header (m : Method) : String :=
  "function " ++ m.name ++ "(" ++ ", ".intercalate m.arguments ++ ") ; method #" ++
    toString m.index ++ ", " ++ toString m.locals ++ " local(s)"

/-- What is noted beside an instruction, with the mark before it. -/
def note (m : Method) (i : Instruction) : String :=
  match m.annotation? i with
  | some note => " ; " ++ note
  | none => ""

/-- The line of an instruction. -/
def line (m : Method) (ip : Nat) (i : Instruction) : String :=
  "  " ++ lineNumber ip ++ "  " ++ i.text ++ m.note i

/-- The lines of a method: the head, and each instruction. -/
def lines (m : Method) : List String :=
  m.header :: m.code.toList.zipIdx.map fun (i, ip) => m.line ip i

theorem disassembly_eq (m : Method) :
    m.disassembly.toList = m.lines.flatMap fun line => line.toList ++ ['\n'] := by
  have hend : ∀ front : String,
      (front ++ " local(s)\n").toList = (front ++ " local(s)").toList ++ ['\n'] := by
    intro front
    rw [String.toList_append, String.toList_append, List.append_assoc]
    rfl
  rw [disassembly, lines, List.flatMap_cons, List.flatMap_map]
  refine (toList_foldl (fun p => (m.line p.2 p.1).toList ++ ['\n']) ?_ _ _).trans ?_
  · rintro out ⟨i, ip⟩
    simp only [line, note, toString, String.toList_append, List.append_assoc]
    rfl
  · exact congrArg₂ (· ++ ·) (hend _) rfl

/-- The names in the head of a method are names. -/
structure Named (m : Method) : Prop where
  name : IsName m.name
  arguments : ∀ x ∈ m.arguments, IsName x

/-- The arguments as they are listed. -/
def argumentText (m : Method) : List Char := [',', ' '].intercalate (m.arguments.map String.toList)

theorem toList_header (m : Method) :
    m.header.toList = "function ".toList ++ (m.name.toList ++ '(' :: (m.argumentText ++ ')' ::
      (" ; method #".toList ++ ((toString m.index).toList ++ ',' ::
        (' ' :: (toString m.locals).toList ++ " local(s)".toList))))) := by
  -- The pieces are variables here: literals would be spelled out at every step.
  have hpieces : ∀ a b c d e f g k l : String,
      (a ++ b ++ c ++ d ++ e ++ f ++ g ++ k ++ l).toList =
        a.toList ++ (b.toList ++ (c.toList ++ (d.toList ++ (e.toList ++ (f.toList ++
          (g.toList ++ (k.toList ++ l.toList))))))) := by
    intros
    simp only [String.toList_append, List.append_assoc]
  refine (hpieces _ _ _ _ _ _ _ _ _).trans ?_
  rw [argumentText, String.toList_intercalate]
  rfl

theorem Named.argumentText_injective (h : m.Named) (h' : m'.Named)
    (heq : m.argumentText = m'.argumentText) : m.arguments = m'.arguments := by
  have hmarked : ∀ {m : Method}, m.Named →
      ∀ piece ∈ m.arguments.map String.toList, piece ≠ [] ∧ ',' ∉ piece := by
    intro m h
    refine List.forall_mem_map.2 ?_
    intro x hx
    exact ⟨(h.arguments x hx).toList_ne_nil, (h.arguments x hx).not_mem_toList rfl⟩
  refine List.map_injective_iff.2 ?_ (intercalate_injective (hmarked h) (hmarked h') heq)
  exact fun x y => String.toList_inj.1

theorem Named.not_mem_argumentText (h : m.Named) {c : Char} (hword : Scan.isWordChar c = false)
    (hcomma : c ≠ ',') (hblank : c ≠ ' ') : c ∉ m.argumentText := by
  intro hmem
  rcases mem_of_mem_intercalate hmem with hsep | ⟨piece, hpiece, hmem⟩
  · rcases List.mem_pair.1 hsep with rfl | rfl
    · exact hcomma rfl
    · exact hblank rfl
  · obtain ⟨x, hx, rfl⟩ := List.mem_map.1 hpiece
    exact (h.arguments x hx).not_mem_toList hword hmem

/-- The name, the arguments and the numbers of a method are known from its head. -/
theorem eq_of_header (h : m.Named) (h' : m'.Named) (heq : m.header = m'.header) :
    m.name = m'.name ∧ m.arguments = m'.arguments ∧ m.index = m'.index ∧ m.locals = m'.locals := by
  have hlist := congrArg String.toList heq
  rw [toList_header, toList_header, List.append_cancel_left_eq] at hlist
  -- the name ends at the parenthesis, the arguments at the next one, the number at the comma
  obtain ⟨hname, hlist⟩ := append_cons_inj_of_marked (h.name.not_mem_toList rfl)
    (h'.name.not_mem_toList rfl) hlist
  obtain ⟨harguments, hlist⟩ := append_cons_inj_of_marked
    (h.not_mem_argumentText rfl (by decide) (by decide))
    (h'.not_mem_argumentText rfl (by decide) (by decide)) hlist
  rw [List.append_cancel_left_eq] at hlist
  have hcomma : ∀ n : Nat, ',' ∉ (toString n).toList :=
    fun n hmem => absurd (isDigit_of_mem_toString hmem) (by decide)
  obtain ⟨hindex, hlist⟩ := append_cons_inj_of_marked (hcomma _) (hcomma _) hlist
  rw [List.append_cancel_right_eq, List.cons_inj_right] at hlist
  exact ⟨String.toList_inj.1 hname, h.argumentText_injective h' harguments,
    Nat.repr_injective (String.toList_inj.1 hindex), Nat.repr_injective (String.toList_inj.1 hlist)⟩

/-! ## The line of an instruction -/

theorem toList_note_of_some {i : Instruction} {note : String} (h : m.annotation? i = some note) :
    (m.note i).toList = ' ' :: ';' :: ' ' :: note.toList := by
  rw [Method.note, h, String.toList_append]
  rfl

theorem toList_note_of_none {i : Instruction} (h : m.annotation? i = none) :
    (m.note i).toList = [] := by
  rw [Method.note, h]
  rfl

/-- From lines of two methods at the same place, the instructions and what is noted beside them are
known. -/
theorem eq_of_line {ip : Nat} {i j : Instruction} (heq : m.line ip i = m'.line ip j) :
    i = j ∧ m.annotation? i = m'.annotation? j := by
  have hlist := congrArg String.toList heq
  simp only [line, String.toList_append, List.append_assoc, List.append_cancel_left_eq] at hlist
  have hmark : ∀ i : Instruction, ';' ∉ i.text.toList := by
    intro i hmem
    exact absurd (Instruction.mem_text hmem) (by decide)
  cases hi : m.annotation? i with
  | none =>
    rw [toList_note_of_none hi, List.append_nil] at hlist
    cases hj : m'.annotation? j with
    | none =>
      rw [toList_note_of_none hj, List.append_nil] at hlist
      exact ⟨Instruction.text_injective (String.toList_inj.1 hlist), rfl⟩
    | some note =>
      rw [toList_note_of_some hj] at hlist
      exact absurd (hlist ▸ by simp) (hmark i)
  | some note =>
    rw [toList_note_of_some hi] at hlist
    cases hj : m'.annotation? j with
    | none =>
      rw [toList_note_of_none hj, List.append_nil] at hlist
      exact absurd (hlist ▸ by simp) (hmark j)
    | some note' =>
      rw [toList_note_of_some hj, List.append_cons i.text.toList, List.append_cons j.text.toList]
        at hlist
      have hmark' : ∀ i : Instruction, ';' ∉ i.text.toList ++ [' '] := by
        intro i hmem
        exact (List.mem_append.1 hmem).elim (hmark i) (by decide)
      obtain ⟨htext, hnote⟩ := append_cons_inj_of_marked (hmark' i) (hmark' j) hlist
      rw [List.append_cancel_right_eq] at htext
      rw [List.cons_inj_right] at hnote
      exact ⟨Instruction.text_injective (String.toList_inj.1 htext),
        congrArg some (String.toList_inj.1 hnote)⟩

/-! ## Every line is one line -/

theorem newline_not_mem_toDigits (n : Nat) : '\n' ∉ Nat.toDigits 10 n := by
  intro hmem
  rw [← String.toList_ofList (l := Nat.toDigits 10 n)] at hmem
  exact absurd (isDigit_of_mem_toString hmem) (by decide)

theorem newline_not_mem_header (h : m.Named) : '\n' ∉ m.header.toList := by
  have hname : '\n' ∉ m.name.toList := h.name.not_mem_toList rfl
  have harguments : '\n' ∉ m.argumentText := h.not_mem_argumentText rfl (by decide) (by decide)
  rw [toList_header]
  simp [newline_not_mem_toDigits, hname, harguments]

theorem newline_not_mem_toString (n : Int) : '\n' ∉ (toString n).toList := by
  cases n with
  | ofNat k => exact fun hmem => absurd (isDigit_of_mem_toString (n := k) hmem) (by decide)
  | negSucc k =>
    show '\n' ∉ ("-" ++ String.ofList (Nat.toDigits 10 (k + 1))).toList
    simp [newline_not_mem_toDigits]

/-- What is noted beside an instruction stays on its line. -/
theorem newline_not_mem_note (h : m.Named) (i : Instruction) : '\n' ∉ (m.note i).toList := by
  cases hnote : m.annotation? i with
  | none =>
    rw [toList_note_of_none hnote]
    exact List.not_mem_nil
  | some note =>
    have hmem : '\n' ∉ note.toList := by
      cases i with
      | pushInt k =>
        obtain ⟨n, -, rfl⟩ := Option.map_eq_some_iff.1 hnote
        exact newline_not_mem_toString n.toInt
      | pushText k | callHost k _ | getTemplate k =>
        obtain ⟨s, -, rfl⟩ := Option.map_eq_some_iff.1 hnote
        exact Text.newline_not_mem_quoted s
      | getArg k => exact (h.arguments note (List.mem_of_getElem? hnote)).not_mem_toList rfl
      | _ => cases hnote
    rw [toList_note_of_some hnote]
    simp [hmem]

theorem newline_not_mem_line (h : m.Named) (ip : Nat) (i : Instruction) :
    '\n' ∉ (m.line ip i).toList := by
  have htext : '\n' ∉ i.text.toList := fun hmem => absurd (Instruction.mem_text hmem) (by decide)
  have hnote := newline_not_mem_note h i
  simp [line, lineNumber, newline_not_mem_toDigits, htext, hnote]

/-- The lines of a method are not empty, and there is no line break in them. -/
theorem of_mem_lines (h : m.Named) {line : String} (hline : line ∈ m.lines) :
    '\n' ∉ line.toList ∧ line ≠ "" := by
  rcases List.mem_cons.1 hline with rfl | hmem
  · refine ⟨newline_not_mem_header h, ?_⟩
    intro hempty
    have hlist := congrArg String.toList hempty
    rw [toList_header] at hlist
    simp at hlist
  · obtain ⟨⟨i, ip⟩, -, rfl⟩ := List.mem_map.1 hmem
    refine ⟨newline_not_mem_line h ip i, ?_⟩
    intro hempty
    have hlist := congrArg String.toList hempty
    simp [Method.line] at hlist

end Method

/-! ## Scripts -/

namespace Script

variable {s s' : Script}

/-- The lines of a listing: those of each method, and a blank line behind it. -/
def lines (s : Script) : List String := s.methods.toList.flatMap fun m => m.lines ++ [""]

/-- The lines of a listing are what stands between line breaks. -/
theorem splitOn_disassembly (h : ∀ m ∈ s.methods, m.Named) :
    s.disassembly.toList.splitOn '\n' = s.lines.map String.toList ++ [[]] := by
  have hlist : s.disassembly.toList = (s.lines.map String.toList).flatMap (· ++ ['\n']) := by
    rw [disassembly, ← Array.foldl_toList]
    refine (Method.toList_foldl
      (fun m => (m.lines ++ [""]).flatMap fun line => line.toList ++ ['\n']) ?_ _ _).trans ?_
    · intro out m
      rw [String.toList_append, String.toList_append, Method.disassembly_eq, List.append_assoc,
        List.flatMap_append]
      rfl
    · rw [List.flatMap_map, lines, List.flatMap_assoc]
      rfl
  rw [hlist]
  refine splitOn_terminated ?_
  refine List.forall_mem_map.2 ?_
  intro line hline
  obtain ⟨m, hm, hline⟩ := List.mem_flatMap.1 hline
  rcases List.mem_append.1 hline with hmem | hmem
  · exact (Method.of_mem_lines (h m (Array.mem_toList_iff.1 hm)) hmem).1
  · rw [List.mem_singleton.1 hmem]
    exact List.not_mem_nil

/-- The lines of each method are known from the listing. -/
theorem lines_of_disassembly (h : ∀ m ∈ s.methods, m.Named) (h' : ∀ m ∈ s'.methods, m.Named)
    (heq : s.disassembly = s'.disassembly) :
    s.methods.toList.map Method.lines = s'.methods.toList.map Method.lines := by
  have hsplit := splitOn_disassembly h
  rw [heq, splitOn_disassembly h', List.append_cancel_right_eq] at hsplit
  have hlines : s'.lines = s.lines :=
    List.map_injective_iff.2 (fun _ _ => String.toList_inj.1) hsplit
  -- the lines of methods end at blank lines, as lines end at line breaks
  have hblocks : ∀ {s : Script}, (∀ m ∈ s.methods, m.Named) →
      s.lines.splitOn "" = s.methods.toList.map Method.lines ++ [[]] := by
    intro s h
    have hflat : s.lines = (s.methods.toList.map Method.lines).flatMap (· ++ [""]) := by
      rw [List.flatMap_map, lines]
    rw [hflat]
    refine splitOn_terminated (List.forall_mem_map.2 ?_)
    intro m hm hempty
    exact (Method.of_mem_lines (h m (Array.mem_toList_iff.1 hm)) hempty).2 rfl
  have hmethods := hblocks h
  rw [← hlines, hblocks h', List.append_cancel_right_eq] at hmethods
  exact hmethods.symm

end Script

end ScriptFuzz
