import ScriptFuzz.Proofs.Findings.Storage

/-!
# Runs of a store of findings

A store lives through recordings, and through its being opened anew on what it has kept.

- `FindingStore.Action`, `FindingStore.perform`: a run, with the answers to what is recorded.
- `FindingStore.recorded`: the four ways in which a recording can end.
- `FindingStore.Faithful`: the digests known are those of the reports that are kept. A store that is
  opened is faithful, and stays so until a file cannot be written.
-/

namespace ScriptFuzz

namespace FindingStore

/-- What stands in a list with one more at its end is the last or stood in the list. -/
theorem split_concat {α : Type} {xs before rest : List α} {x y : α}
    (h : xs ++ [x] = before ++ y :: rest) :
    (before = xs ∧ y = x) ∨ ∃ rest', xs = before ++ y :: rest' := by
  rcases List.eq_nil_or_concat rest with rfl | ⟨rest', z, rfl⟩
  · obtain ⟨hxs, hx⟩ := List.append_inj' h rfl
    exact .inl ⟨hxs.symm, (List.singleton_inj.1 hx).symm⟩
  · rw [List.concat_eq_append, ← List.cons_append, ← List.append_assoc] at h
    exact .inr ⟨rest', (List.append_inj' h rfl).1⟩

/-- What a store goes through. -/
inductive Action where
  /-- A finding is recorded. -/
  | record (report : Report)
  /-- The store is given up, and one is opened on what it has kept. -/
  | reopen

/-- The report recorded, if any. -/
def Action.report? : Action → Option Report
  | record r => some r
  | reopen => none

/-- The reports recorded, in their order. -/
def reports (actions : List Action) : List Report := actions.filterMap Action.report?

theorem reports_map_record (rs : List Report) : reports (rs.map .record) = rs := by
  induction rs with
  | nil => rfl
  | cons r rs ih => exact congrArg (r :: ·) ih

/-- The report about a segmentation fault. -/
def faultReport (template : String) (input : Bytes) : Report where
  outcome :=
    { template, state := "u8: current=255", input, exitCode := 139, ending := .segmentationFault }
  description := s!"{Ending.segmentationFault.describe} (exit code {(139 : Int)})"
  hash := hexText (md5 input)
  severity := Oracle.crashSeverity

theorem crash_faultReport (template : String) (input : Bytes) :
    Oracle.crash (faultReport template input).outcome = some (faultReport template input) := rfl

section

variable {δ : Type} [Storage δ]

/-- The answers to the reports recorded, and the store in the end. -/
def perform : FindingStore δ → List Action → List (Option Bool) × FindingStore δ
  | s, [] => ([], s)
  | s, .record r :: actions =>
    (((s.record r).1 :: ((s.record r).2.perform actions).1), ((s.record r).2.perform actions).2)
  | s, .reopen :: actions => s.reopen.perform actions

variable (s : FindingStore δ)

theorem perform_append (before after : List Action) :
    s.perform (before ++ after) =
      ((s.perform before).1 ++ ((s.perform before).2.perform after).1,
        ((s.perform before).2.perform after).2) := by
  induction before generalizing s with
  | nil => rfl
  | cons action before ih =>
    cases action with
    | record r =>
      show (_ :: ((s.record r).2.perform (before ++ after)).1,
        ((s.record r).2.perform (before ++ after)).2) = _
      rw [ih]
      rfl
    | reopen => exact ih s.reopen

theorem perform_record (actions : List Action) (r : Report) :
    s.perform (actions ++ [.record r]) =
      ((s.perform actions).1 ++ [((s.perform actions).2.record r).1],
        ((s.perform actions).2.record r).2) :=
  s.perform_append actions [.record r]

theorem perform_reopen (actions : List Action) :
    s.perform (actions ++ [.reopen]) =
      ((s.perform actions).1, (s.perform actions).2.reopen) := by
  rw [perform_append]
  show ((s.perform actions).1 ++ [], _) = _
  rw [List.append_nil]
  rfl

/-! ## One recording -/

/-- The ways in which a recording can end. -/
inductive Recorded (s : FindingStore δ) (r : Report) : Option Bool × FindingStore δ → Prop
  /-- The digest is known, and nothing is written. -/
  | known : r.hash ∈ s.seen → Recorded s r (some false, s)
  /-- The report cannot be written, and the payload is not tried. -/
  | reportLost {storage : δ} : r.hash ∉ s.seen →
      Storage.write (reportName r) (Text.utf8 r.json) s.storage = (false, storage) →
      Recorded s r (none, { s with storage })
  /-- The report is written, and the payload cannot be. -/
  | payloadLost {first second : δ} : r.hash ∉ s.seen →
      Storage.write (reportName r) (Text.utf8 r.json) s.storage = (true, first) →
      Storage.write (payloadName r) r.outcome.input first = (false, second) →
      Recorded s r (none, { s with storage := second })
  /-- Both files are written. -/
  | kept {first second : δ} : r.hash ∉ s.seen →
      Storage.write (reportName r) (Text.utf8 r.json) s.storage = (true, first) →
      Storage.write (payloadName r) r.outcome.input first = (true, second) →
      Recorded s r (some true, { storage := second, seen := r.hash :: s.seen })

theorem recorded (r : Report) : Recorded s r (s.record r) := by
  unfold record
  by_cases hseen : r.hash ∈ s.seen
  · rw [if_pos (List.contains_iff_mem.2 hseen)]
    exact .known hseen
  · rw [if_neg (fun h => hseen (List.contains_iff_mem.1 h))]
    split
    · rename_i hfirst
      exact .reportLost hseen hfirst
    · rename_i hfirst
      split
      · rename_i hsecond
        exact .payloadLost hseen hfirst hsecond
      · rename_i hsecond
        exact .kept hseen hfirst hsecond

end

/-! ## Faithful stores -/

section

variable {δ : Type} [Storage δ]

/-- The digests known are those of the reports that are kept. -/
structure Faithful (s : FindingStore δ) : Prop where
  /-- A digest is known exactly if there is a report for it. -/
  mem_seen : ∀ {digest : String}, digest ≠ "" →
    (digest ∈ s.seen ↔ digest ++ ".json" ∈ Storage.names s.storage)

theorem faithful_start (storage : δ) : (start storage).Faithful := by
  constructor
  intro digest hdigest
  show digest ∈ (known (Storage.names storage)).eraseDups ↔ _
  rw [List.mem_eraseDups, mem_known hdigest]
  rfl

/-- A store over a place that cannot be listed takes nothing there for known. -/
theorem start_of_unlisted {storage : δ} (h : Storage.list? storage = none) :
    start storage = { storage, seen := [] } := by
  rw [start, Storage.names, h]
  rfl

theorem faithful_reopen (s : FindingStore δ) : s.reopen.Faithful := faithful_start s.storage

end

/-! ## What a recording does -/

section

variable {δ : Type} [Storage δ] {s : FindingStore δ} {r : Report}

open LawfulStorage

theorem mem_seen_record_of_ne {digest : String} (hdigest : digest ≠ r.hash) :
    digest ∈ (s.record r).2.seen ↔ digest ∈ s.seen := by
  have hrecorded := s.recorded r
  generalize s.record r = ended at hrecorded ⊢
  cases hrecorded with
  | known _ => rfl
  | reportLost _ _ => rfl
  | payloadLost _ _ _ => rfl
  | kept _ _ _ => exact List.mem_cons.trans (or_iff_right hdigest)

variable [LawfulStorage δ]

/-- A recording, however it ends, keeps to the two files of its digest. -/
theorem node?_record_of_ne {name : String} (hreport : name ≠ reportName r)
    (hpayload : name ≠ payloadName r) :
    node? (s.record r).2.storage name = node? s.storage name := by
  have hrecorded := s.recorded r
  generalize s.record r = ended at hrecorded ⊢
  cases hrecorded with
  | known _ => rfl
  | reportLost _ hfirst => exact node?_write_of_ne hreport hfirst
  | payloadLost _ hfirst hsecond =>
    exact (node?_write_of_ne hpayload hsecond).trans (node?_write_of_ne hreport hfirst)
  | kept _ hfirst hsecond =>
    exact (node?_write_of_ne hpayload hsecond).trans (node?_write_of_ne hreport hfirst)

section

variable {digest : String} (hdigest : digest ≠ r.hash)

include hdigest

theorem report_mem_names_record_of_ne :
    digest ++ ".json" ∈ Storage.names (s.record r).2.storage ↔
      digest ++ ".json" ∈ Storage.names s.storage := by
  rw [mem_names, mem_names,
    node?_record_of_ne (report_ne_report hdigest) (report_ne_payload _ _)]

theorem payload_mem_names_record_of_ne :
    digest ++ ".bin" ∈ Storage.names (s.record r).2.storage ↔
      digest ++ ".bin" ∈ Storage.names s.storage := by
  rw [mem_names, mem_names,
    node?_record_of_ne (report_ne_payload _ _).symm (payload_ne_payload hdigest)]

end

/-- A finding that is answered to be new is kept: both files are there, as they are written. -/
theorem entries_of_record (h : (s.record r).1 = some true) :
    node? (s.record r).2.storage (reportName r) = some (.file (Text.utf8 r.json)) ∧
      node? (s.record r).2.storage (payloadName r) = some (.file r.outcome.input) := by
  have hrecorded := s.recorded r
  generalize s.record r = ended at h hrecorded ⊢
  cases hrecorded with
  | kept _ hfirst hsecond =>
    have hne : reportName r ≠ payloadName r := report_ne_payload _ _
    refine ⟨?_, node?_written hsecond⟩
    show node? _ (reportName r) = _
    rw [node?_write_of_ne hne hsecond]
    exact node?_written hfirst
  | known _ => cases h
  | reportLost _ _ => cases h
  | payloadLost _ _ _ => cases h

/-- A recording that is answered leaves the store faithful. -/
theorem Faithful.record (hs : s.Faithful) (hanswer : (s.record r).1 ≠ none) :
    (s.record r).2.Faithful := by
  constructor
  intro digest hdigest
  by_cases hne : digest = r.hash
  · subst hne
    have hrecorded := s.recorded r
    generalize s.record r = ended at hanswer hrecorded ⊢
    cases hrecorded with
    | known _ => exact hs.mem_seen hdigest
    | reportLost _ _ => exact absurd rfl hanswer
    | payloadLost _ _ _ => exact absurd rfl hanswer
    | kept _ hfirst hsecond =>
      have hreport := (mem_names_write_of_ne (report_ne_payload _ _) hsecond).2
        (mem_names_written hfirst)
      exact iff_of_true List.mem_cons_self hreport
  · rw [mem_seen_record_of_ne hne, report_mem_names_record_of_ne hne]
    exact hs.mem_seen hdigest

end

end FindingStore

end ScriptFuzz
