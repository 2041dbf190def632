import ScriptFuzz.Proofs.Code.Declared
import ScriptFuzz.Proofs.Listing.Lines
import ScriptFuzz.Proofs.Listing.Pools
import ScriptFuzz.Proofs.Reading.Scripts

/-!
# Listings lose nothing

The methods of a compiled script are known from its listing: their names, arguments and numbers from
their heads, their code from the lines of the instructions, and their pools from what is noted
there, since every entry of a pool is noted beside an instruction that takes it.

- `Method.eq_of_lines`: a method is known from its lines.
- `disassembly_injective`: the methods of a compiled script are known from its listing, and the
  listing has the lines that it should have.
-/

namespace ScriptFuzz

/-! ## Methods -/

/-- A method whose names are names, and whose code takes the entries of its pools one after the
other. -/
structure Method.Listable (m : Method) : Prop extends m.Named where
  pools : PoolsInOrder m.code.toList m.ints.size m.texts.size

namespace Method

variable {m m' : Method}

/-- The instructions and what is noted beside them are known from their lines. -/
theorem code_eq_of_lines {code code' : List Instruction} {ip : Nat}
    (h : ((code.zipIdx ip).map fun (i, ip) => m.line ip i) =
      (code'.zipIdx ip).map fun (i, ip) => m'.line ip i) :
    code = code' ∧ ∀ i ∈ code, m.annotation? i = m'.annotation? i := by
  induction code generalizing code' ip with
  | nil =>
    cases code' with
    | nil => exact ⟨rfl, List.forall_mem_nil _⟩
    | cons j code' => cases h
  | cons i code ih =>
    cases code' with
    | nil => cases h
    | cons j code' =>
      rw [List.zipIdx_cons, List.zipIdx_cons, List.map_cons, List.map_cons, List.cons.injEq] at h
      obtain ⟨rfl, hnote⟩ := eq_of_line h.1
      obtain ⟨rfl, hrest⟩ := ih h.2
      exact ⟨rfl, List.forall_mem_cons.2 ⟨hnote, hrest⟩⟩

/-- A pool is known from how its entries are noted, if no two are noted in the same way. -/
theorem pool_eq_of_notes {α : Type} {entries others : Array α} {note : α → String}
    (hnote : Function.Injective note) (hsize : entries.size = others.size)
    (h : ∀ k < entries.size, entries[k]?.map note = others[k]?.map note) : entries = others := by
  refine Array.ext_getElem? ?_
  intro k
  by_cases hk : k < entries.size
  · exact Option.map_injective hnote (h k hk)
  · rw [Array.getElem?_eq_none (by omega), Array.getElem?_eq_none (by omega)]

/-- What is noted beside an instruction that takes a text is the text in quotes. -/
theorem annotation?_of_text {i : Instruction} {k : Nat} (h : i.text? = some k) (m : Method) :
    m.annotation? i = m.texts[k]?.map Text.quoted := by
  cases i with
  | pushText | callHost | getTemplate =>
    cases h
    rfl
  | _ => cases h

/-- A method is known from its lines. -/
theorem eq_of_lines (h : m.Listable) (h' : m'.Listable) (heq : m.lines = m'.lines) : m = m' := by
  rw [lines, lines, List.cons.injEq] at heq
  obtain ⟨hheader, hbody⟩ := heq
  obtain ⟨hname, harguments, hindex, hlocals⟩ := eq_of_header h.toNamed h'.toNamed hheader
  obtain ⟨hcode, hnotes⟩ := code_eq_of_lines hbody
  -- the code says how large the pools are, and what they hold is noted beside it
  obtain ⟨hsize, hsize'⟩ := h.pools.sizes_eq (hcode ▸ h'.pools)
  have hints : m.ints = m'.ints := by
    refine pool_eq_of_notes ?_ hsize fun k hk => hnotes _ (h.pools.exists_int hk)
    intro n n' hn
    exact Int64.toInt_inj.1 (Int.repr_injective hn)
  have htexts : m.texts = m'.texts := by
    refine pool_eq_of_notes (fun _ _ => Text.quoted_injective) hsize' ?_
    intro k hk
    obtain ⟨i, hi, hik⟩ := h.pools.exists_text hk
    rw [← annotation?_of_text hik, ← annotation?_of_text hik]
    exact hnotes i hi
  cases m
  cases m'
  simp_all [Array.toList_inj]

end Method

/-! ## Compiled scripts -/

namespace Source

theorem mem_commas {l : Lexeme} {ts : List Lexeme} {pieces : List (List Lexeme)} (hl : l ∈ ts)
    (hts : ts ∈ pieces) : l ∈ commas pieces := by
  induction pieces with
  | nil => cases hts
  | cons us pieces ih =>
    cases pieces with
    | nil => rwa [commas_singleton, ← List.mem_singleton.1 hts]
    | cons vs pieces =>
      rw [commas_cons, List.mem_append]
      rcases List.mem_cons.1 hts with rfl | hrest
      · exact .inl hl
      · exact .inr (.tail _ (ih hrest))

/-- The names in the head of a function stand in the script. -/
theorem Program.Written.ident_mem {ls : List Lexeme} {p : Program} (hw : p.Written ls)
    {f : Function} (hf : .function f ∈ p) :
    .ident f.name ∈ ls ∧ ∀ x ∈ f.params, .ident x ∈ ls := by
  induction hw with
  | nil => cases hf
  | cons hd _ ih =>
    rcases List.mem_cons.1 hf with rfl | hrest
    · cases hd with
      | function hf =>
        obtain ⟨name, params, -⟩ := hf
        refine ⟨by simp, ?_⟩
        intro x hx
        have hmem : .ident x ∈ commas (params.map fun x => [.ident x]) :=
          mem_commas List.mem_cons_self (List.mem_map_of_mem hx)
        simp [hmem]
    · obtain ⟨hname, hparams⟩ := ih hrest
      exact ⟨List.mem_append_right _ hname, fun x hx => List.mem_append_right _ (hparams x hx)⟩

end Source

open Source

/-- The methods of a compiled script can be listed. -/
theorem listable_of_compile {source : String} {script : Script} (hc : compile source = .ok script)
    {m : Method} (hm : m ∈ script.methods) : m.Listable := by
  obtain ⟨p, hw⟩ := exists_written_of_compile hc
  obtain ⟨-, rfl⟩ := valid_of_compile hw hc
  obtain ⟨k, hk⟩ := Array.getElem?_of_mem hm
  obtain ⟨before, f, after, rfl, rfl⟩ := Program.exists_function hk
  obtain ⟨hname, hparams⟩ := hw.ident_mem (f := f) (by simp)
  exact {
    name := isName_of_mem_source hname
    arguments := fun x hx => isName_of_mem_source (hparams x hx)
    pools := Function.poolsInOrder_method _ f _ }

/-- Two scripts with the same listing have the same methods, down to the numbers and the pools. The
listing of a script has one line for the head of each method, one for each instruction and a blank
line, whatever its texts are. -/
theorem disassembly_injective {source source' : String} {script script' : Script}
    (hc : compile source = .ok script) (hc' : compile source' = .ok script') :
    (script.disassembly = script'.disassembly → script.methods = script'.methods) ∧
      script.disassembly.toList.splitOn '\n' =
        (script.methods.toList.flatMap fun m =>
          m.header :: (m.code.toList.zipIdx.map fun (i, ip) => m.line ip i) ++ [""]).map
            String.toList ++ [[]] := by
  have hnamed : ∀ m ∈ script.methods, m.Named := fun m hm => (listable_of_compile hc hm).toNamed
  have hnamed' : ∀ m ∈ script'.methods, m.Named := fun m hm => (listable_of_compile hc' hm).toNamed
  refine ⟨?_, Script.splitOn_disassembly hnamed⟩
  intro heq
  have hlines := Script.lines_of_disassembly hnamed hnamed' heq
  have hsize : script.methods.size = script'.methods.size := by
    simpa using congrArg List.length hlines
  refine Array.ext hsize ?_
  intro k hk hk'
  have hline := congrArg (·[k]?) hlines
  simp only [List.getElem?_map, Array.getElem?_toList, Array.getElem?_eq_getElem hk,
    Array.getElem?_eq_getElem hk', Option.map_some, Option.some.injEq] at hline
  exact Method.eq_of_lines (listable_of_compile hc (Array.getElem_mem hk))
    (listable_of_compile hc' (Array.getElem_mem hk')) hline

/-- Two scripts that differ in a template, with a semicolon and a line break in a text. -/
theorem disassembly_of_two_templates :
    ∃ script script',
      compile "template t = [byte]; function f(a) \x7b return g(t, a, \";\\n\"); \x7d" =
        .ok script ∧
      compile "template t = [word]; function f(a) \x7b return g(t, a, \";\\n\"); \x7d" =
        .ok script' ∧
      script.disassembly = script'.disassembly ∧ script.methods = script'.methods ∧
      script.disassembly.toList.splitOn '\n' =
        ["function f(a) ; method #0, 0 local(s)", "  0000  GETTEMPLATE 0 ; \"t\"",
          "  0001  GETARG 0 ; a", "  0002  PUSHSTRING 1 ; \";\\n\"",
          "  0003  CALLEXT 2, 3 ; \"g\"", "  0004  RETURN", "", ""].map String.toList := by
  let f : Source.Function := ⟨"f", ["a"], [.result (.call "g" [.name "t", .name "a", .text ";\n"])]⟩
  let p (w : Width) : Program := [.template "t" [.field (.scalar w none)], .function f]
  have hc : compile "template t = [byte]; function f(a) \x7b return g(t, a, \";\\n\"); \x7d" =
      .ok (p .one).script := by
    cbv
  have hc' : compile "template t = [word]; function f(a) \x7b return g(t, a, \";\\n\"); \x7d" =
      .ok (p .two).script := by
    cbv
  have heq : (p .one).script.disassembly = (p .two).script.disassembly := rfl
  obtain ⟨hmethods, hlines⟩ := disassembly_injective hc hc'
  have hlisted : ((p .one).script.methods.toList.flatMap fun m =>
      m.header :: (m.code.toList.zipIdx.map fun (i, ip) => m.line ip i) ++ [""]) =
      ["function f(a) ; method #0, 0 local(s)", "  0000  GETTEMPLATE 0 ; \"t\"",
        "  0001  GETARG 0 ; a", "  0002  PUSHSTRING 1 ; \";\\n\"",
        "  0003  CALLEXT 2, 3 ; \"g\"", "  0004  RETURN", ""] := by
    decide +kernel
  rw [hlisted] at hlines
  exact ⟨_, _, hc, hc', heq, hmethods heq, hlines⟩

end ScriptFuzz
