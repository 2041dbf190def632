import ScriptFuzz.Folder.Path

/-!
# Paths of entries

The path of an entry of a folder is the path of the folder with the name of the entry behind it.

- `Path.join_le_join`: paths of entries come in the order of the names.
- `Path.fileName?_of_not_mem`: a path of one name.
-/

namespace ScriptFuzz.Path

/-- Paths of entries of one folder come in the order of the names. -/
theorem join_le_join (path : String) {name other : String} (h : name ≤ other) :
    join path name ≤ join path other := by
  by_cases hlt : name < other
  · have happend : ∀ front : String, front ++ name ≤ front ++ other := fun front => by
      refine String.not_lt.1 (String.lt_asymm ?_)
      rw [String.lt_iff, String.toList_append, String.toList_append]
      exact List.append_left_lt (String.lt_iff.1 hlt)
    rw [join, join]
    split
    · exact happend path
    · exact happend (path ++ "/")
  · obtain rfl := String.le_antisymm h (String.not_lt.1 hlt)
    exact String.le_refl _

theorem splitFrom_of_not_mem {cs : List Char} (h : '/' ∉ cs) (before : List Char) :
    splitFrom before cs = [.ofList (before.reverse ++ cs)] := by
  induction cs generalizing before with
  | nil => rw [splitFrom, List.append_nil]
  | cons c cs ih =>
    obtain ⟨hc, hcs⟩ := not_or.1 (mt List.mem_cons.2 h)
    rw [splitFrom, ih hcs, List.reverse_cons, List.append_assoc, List.singleton_append]
    exact fun heq => hc heq.symm

/-- A path without slashes is the name of a file, unless it stays in the folder or leaves it. -/
theorem fileName?_of_not_mem {name : String} (hslash : '/' ∉ name.toList)
    (hdots : name ∉ ["", ".", ".."]) : fileName? name = some name := by
  have hsplit : split name = [name] := by
    rw [split, splitFrom_of_not_mem hslash, List.reverse_nil, List.nil_append, String.ofList_toList]
  simp only [List.mem_cons, List.not_mem_nil, or_false, not_or] at hdots
  obtain ⟨hempty, hdot, hup⟩ := hdots
  have hkept : [name].filter (fun name => name != "" && name != ".") = [name] := by
    simp [hempty, hdot]
  rw [fileName?, hsplit, hkept, List.getLast?_singleton]
  split
  case h_1 heq => exact absurd (Option.some.inj heq) hup
  case h_2 => rfl

end ScriptFuzz.Path
