import ScriptFuzz.Finding.Store

/-!
# Storages as maps from names

What a store of findings relies on in the place where it keeps its files, and how it reads the
digests of findings off the names of the files.

- `LawfulStorage`: the names can be listed, a write that succeeds puts the file under its name, and
  no write reaches what is under another name. Folders are lawful.
- `FindingStore.mem_known`: a digest is known from names exactly if the name of its report is one of
  them. This needs a digest that is not empty: the name `.json` has no extension.
- `FindingStore.hash_ne_empty_of_crash`: the digests of crash reports are not empty.
-/

namespace ScriptFuzz

/-! ## Folders as maps -/

namespace Folder

theorem lookup_insertEntry_self (name : String) (node : Node) :
    ∀ entries, (insertEntry name node entries).lookup name = some node
  | [] => by simp [insertEntry]
  | (other, n) :: entries => by
    have ih := lookup_insertEntry_self name node entries
    unfold insertEntry
    by_cases hlt : name < other
    · simp [hlt]
    · by_cases heq : name = other
      · simp [heq]
      · have hbeq : (name == other) = false := beq_false_of_ne heq
        simp [hlt, heq, List.lookup_cons, hbeq, ih]

/-- An entry that is put in leaves the others alone, whether the entries are in order or not. -/
theorem lookup_insertEntry_of_ne {name other : String} (h : other ≠ name) (node : Node) :
    ∀ entries, (insertEntry name node entries).lookup other = entries.lookup other
  | [] => by simp [insertEntry, List.lookup_cons, beq_false_of_ne h]
  | (first, n) :: entries => by
    have ih := lookup_insertEntry_of_ne h node entries
    have hbeq : (other == name) = false := beq_false_of_ne h
    unfold insertEntry
    by_cases hlt : name < first
    · simp [hlt, List.lookup_cons, hbeq]
    · by_cases heq : name = first
      · simp [← heq, List.lookup_cons, hbeq]
      · simp [hlt, heq, List.lookup_cons, ih]

variable (folder : Folder)

@[simp] theorem get?_insert_self (name : String) (node : Node) :
    (folder.insert name node).get? name = some node :=
  lookup_insertEntry_self name node folder.entries

theorem get?_insert_of_ne {name other : String} (h : other ≠ name) (node : Node) :
    (folder.insert name node).get? other = folder.get? other :=
  lookup_insertEntry_of_ne h node folder.entries

theorem get?_erase_of_ne {name other : String} (h : other ≠ name) :
    (folder.erase name).get? other = folder.get? other := by
  show List.lookup other (folder.entries.filter (·.1 != name)) = List.lookup other folder.entries
  induction folder.entries with
  | nil => rfl
  | cons entry entries ih =>
    obtain ⟨first, n⟩ := entry
    by_cases hfirst : first = name
    · have hbeq : (other == first) = false := beq_false_of_ne (hfirst ▸ h)
      simp [hfirst, List.lookup_cons, ← ih, beq_false_of_ne h]
    · simp [hfirst, List.lookup_cons, ih]

theorem mem_names {name : String} : name ∈ folder.names ↔ (folder.get? name).isSome := by
  show name ∈ folder.entries.map (·.1) ↔ (List.lookup name folder.entries).isSome
  rw [List.mem_map, List.lookup_isSome_iff]
  grind

end Folder

/-! ## Lawful storages -/

/-- Storages that are maps from names: they can be listed, a write that succeeds puts a file under
its name, and no write, whether it succeeds or not, reaches what is under another name. -/
class LawfulStorage (δ : Type) [Storage δ] where
  /-- What is kept under a name. -/
  node? : δ → String → Option Node
  /-- The names can be listed, and they are those under which something is kept. -/
  list?_eq : ∀ s : δ, ∃ names, Storage.list? s = some names ∧
    ∀ name, name ∈ names ↔ (node? s name).isSome
  /-- A write that succeeds keeps the data. -/
  node?_written : ∀ {s t : δ} {name : String} {data : Bytes},
    Storage.write name data s = (true, t) → node? t name = some (.file data)
  /-- A write keeps to its own name. -/
  node?_write_of_ne : ∀ {s t : δ} {name other : String} {data : Bytes} {written : Bool},
    other ≠ name → Storage.write name data s = (written, t) → node? t other = node? s other

namespace LawfulStorage

variable {δ : Type} [Storage δ] [LawfulStorage δ] {s t : δ} {name other : String} {data : Bytes}

theorem mem_names : name ∈ Storage.names s ↔ (node? s name).isSome := by
  obtain ⟨names, hlist, hmem⟩ := list?_eq s
  rw [Storage.names, hlist, Option.getD_some, hmem]

theorem mem_names_written (h : Storage.write name data s = (true, t)) : name ∈ Storage.names t := by
  rw [mem_names, node?_written h]
  rfl

theorem mem_names_write_of_ne {written : Bool} (hne : other ≠ name)
    (h : Storage.write name data s = (written, t)) :
    other ∈ Storage.names t ↔ other ∈ Storage.names s := by
  rw [mem_names, mem_names, node?_write_of_ne hne h]

end LawfulStorage

theorem Folder.write_eq (folder : Folder) (name : String) (data : Bytes) :
    Storage.write name data folder = (false, folder) ∨
      Storage.write name data folder = (true, folder.insert name (.file data)) := by
  cases hwrite : folder.write name data with
  | none =>
    left
    simp only [Storage.write, hwrite]
  | some t =>
    right
    have ht : folder.insert name (.file data) = t := by
      unfold Folder.write at hwrite
      split at hwrite
      · cases hwrite
      · exact Option.some.inj hwrite
    simp only [Storage.write, hwrite, ht]

instance : LawfulStorage Folder where
  node? := Folder.get?
  list?_eq folder := ⟨folder.names, rfl, fun _ => folder.mem_names⟩
  node?_written {folder t name data} h := by
    rcases folder.write_eq name data with hw | hw
    · rw [hw] at h
      cases h
    · rw [hw] at h
      cases h
      exact folder.get?_insert_self name _
  node?_write_of_ne {folder t name other data written} hne h := by
    rcases folder.write_eq name data with hw | hw
    · rw [hw] at h
      cases h
      rfl
    · rw [hw] at h
      cases h
      exact folder.get?_insert_of_ne hne _

/-! ## Digests and names -/

/-- A name with an extension comes apart at its last dot. -/
theorem splitExtension_append {digest extension : String} (hdigest : digest ≠ "")
    (hextension : '.' ∉ extension.toList) :
    splitExtension (digest ++ "." ++ extension) = (digest, some extension) := by
  have hreverse : (digest ++ "." ++ extension).toList.reverse =
      extension.toList.reverse ++ '.' :: digest.toList.reverse := by
    simp
  have hbehind : (extension.toList.reverse ++ '.' :: digest.toList.reverse).takeWhile (· != '.') =
      extension.toList.reverse := by
    rw [List.takeWhile_append_of_pos (by grind)]
    simp
  have hnonempty : digest.toList.reverse ≠ [] := by
    intro hnil
    exact hdigest (String.toList_inj.1 (List.reverse_eq_nil_iff.1 hnil))
  obtain ⟨c, cs, hc⟩ := List.exists_cons_of_ne_nil hnonempty
  unfold splitExtension
  dsimp only
  rw [hreverse, hbehind, List.drop_left, hc]
  show (String.ofList (c :: cs).reverse, some (String.ofList extension.toList.reverse.reverse)) = _
  rw [← hc, List.reverse_reverse, List.reverse_reverse, String.ofList_toList, String.ofList_toList]

/-- The parts of a name make up the name. -/
theorem eq_append_of_splitExtension {name digest extension : String}
    (h : splitExtension name = (digest, some extension)) :
    name = digest ++ "." ++ extension := by
  obtain ⟨behind, hbehind⟩ : ∃ behind, behind = name.toList.reverse.takeWhile (· != '.') :=
    ⟨_, rfl⟩
  have happend : behind ++ name.toList.reverse.dropWhile (· != '.') = name.toList.reverse := by
    rw [hbehind, List.takeWhile_append_dropWhile]
  have hdrop : name.toList.reverse.drop behind.length =
      name.toList.reverse.dropWhile (· != '.') := by
    rw [← happend, List.drop_left, happend]
  unfold splitExtension at h
  dsimp only at h
  rw [← hbehind, hdrop] at h
  split at h
  · cases h
  · cases h
  · rename_i dot before _ hbefore
    have hdot : dot = '.' := by
      have := List.head?_dropWhile_not (· != '.') name.toList.reverse
      simpa [hbefore] using this
    have hname : name.toList = before.reverse ++ '.' :: behind.reverse := by
      rw [← List.reverse_inj, ← happend, hbefore, hdot]
      simp
    obtain ⟨rfl, hextension⟩ := Prod.mk.inj h
    obtain rfl := Option.some.inj hextension
    apply String.toList_inj.1
    simp [hname]

namespace FindingStore

/-- A digest is known exactly if there is a report for it. -/
theorem mem_known {digest : String} (hdigest : digest ≠ "") {names : List String} :
    digest ∈ known names ↔ digest ++ ".json" ∈ names := by
  have hname : digest ++ "." ++ "json" = digest ++ ".json" := String.append_assoc
  unfold known
  rw [List.mem_filterMap]
  constructor
  · rintro ⟨name, hmem, hknown⟩
    split at hknown
    · rename_i other hsplit
      obtain rfl := Option.some.inj hknown
      rw [← hname, ← eq_append_of_splitExtension hsplit]
      exact hmem
    · cases hknown
  · intro hmem
    have hsplit : splitExtension (digest ++ "." ++ "json") = (digest, some "json") :=
      splitExtension_append hdigest (by decide)
    refine ⟨digest ++ ".json", hmem, ?_⟩
    rw [← hname, hsplit]
    rfl

theorem md5_ne_nil (message : Bytes) : md5 message ≠ [] := by
  intro h
  have hlength : (md5 message).length = 16 := by
    unfold md5 Digest.Words.bytes
    simp
  rw [h] at hlength
  cases hlength

/-- A message digest has sixteen bytes, and their text is not empty. -/
theorem hash_ne_empty_of_crash {outcome : Outcome} {r : Report}
    (h : Oracle.crash outcome = some r) : r.hash ≠ "" := by
  unfold Oracle.crash at h
  split at h
  · obtain rfl := Option.some.inj h
    obtain ⟨b, bytes, hbytes⟩ := List.exists_cons_of_ne_nil (md5_ne_nil outcome.input)
    show hexText (md5 outcome.input) ≠ ""
    intro hempty
    have htoList := congrArg String.toList hempty
    rw [hbytes] at htoList
    simp [hexText] at htoList
  · cases h

theorem report_ne_report {digest other : String} (h : digest ≠ other) :
    digest ++ ".json" ≠ other ++ ".json" :=
  mt (String.append_left_inj _).1 h

theorem payload_ne_payload {digest other : String} (h : digest ≠ other) :
    digest ++ ".bin" ≠ other ++ ".bin" :=
  mt (String.append_left_inj _).1 h

/-- No file is a report and a payload at once. -/
theorem report_ne_payload (digest other : String) : digest ++ ".json" ≠ other ++ ".bin" := by
  intro h
  have hnext : (digest ++ ".json").toList.reverse[1]? = (other ++ ".bin").toList.reverse[1]? := by
    rw [h]
  simp at hnext

end FindingStore

end ScriptFuzz
