import Mathlib.Data.List.Induction
import ScriptFuzz.Proofs.Findings.Runs

/-!
# Findings when files cannot be written

A finding is two files, and the second of them may fail after the first is written. A store that
goes on does not count such a finding as known, but one that is opened afterwards goes by the report
alone, and takes it for kept.

- `Disk`: a folder on which any write may fail.
- `FindingStore.Stuck`: a digest is known and its payload is not there. Nothing that is recorded
  brings such a finding about, and nothing mends it.
- `FindingStore.Overlooked`: the store was opened when there was a report and no payload.
- `FindingStore.answers_under_outages`: a finding that is answered to be new is there; one that is
  answered to be known has its report there, and lacks its payload exactly if it was overlooked.
- `FindingStore.payload_missing`: this can happen.
-/

namespace ScriptFuzz

/-! ## Disks -/

/-- A folder, and for each write to come whether it fails. When nothing is said any more, writes
succeed. -/
structure Disk where
  /-- The files that are there. -/
  folder : Folder := {}
  /-- The writes to come: `true` for one that fails. -/
  outages : List Bool := []

namespace Disk

/-- Writes a file, unless the write is one that fails: it leaves no file of that name, not even an
earlier one. -/
def write (name : String) (data : Bytes) (disk : Disk) : Bool × Disk :=
  match disk.outages with
  | true :: outages => (false, { folder := disk.folder.erase name, outages })
  | outages => (true, { folder := disk.folder.insert name (.file data), outages := outages.tail })

instance : Storage Disk where
  write := write
  list? disk := some disk.folder.names

instance : LawfulStorage Disk where
  node? disk := disk.folder.get?
  list?_eq disk := ⟨disk.folder.names, rfl, fun _ => disk.folder.mem_names⟩
  node?_written {disk t name data} h := by
    change disk.write name data = (true, t) at h
    unfold write at h
    split at h
    · cases h
    · cases h
      exact disk.folder.get?_insert_self name _
  node?_write_of_ne {disk t name other data written} hne h := by
    change disk.write name data = (written, t) at h
    unfold write at h
    split at h
    · cases h
      exact disk.folder.get?_erase_of_ne hne
    · cases h
      exact disk.folder.get?_insert_of_ne hne _

end Disk

namespace FindingStore

open LawfulStorage

section

variable {δ : Type} [Storage δ]

/-- There is the report of a finding, and its payload is not there. -/
def HalfKept (storage : δ) (digest : String) : Prop :=
  digest ++ ".json" ∈ Storage.names storage ∧ digest ++ ".bin" ∉ Storage.names storage

/-- A finding is known, and its payload is not there. -/
def Stuck (s : FindingStore δ) (digest : String) : Prop :=
  digest ∈ s.seen ∧ digest ++ ".bin" ∉ Storage.names s.storage

/-- In a run the store was opened anew at a time when a finding was half kept. -/
def Overlooked (s : FindingStore δ) (actions : List Action) (digest : String) : Prop :=
  ∃ before after, actions = before ++ .reopen :: after ∧
    HalfKept (s.perform before).2.storage digest

/-- In a run a finding of the given digest could not be recorded. -/
def Failed (s : FindingStore δ) (actions : List Action) (digest : String) : Prop :=
  ∃ before r after, actions = before ++ .record r :: after ∧ r.hash = digest ∧
    ((s.perform before).2.record r).1 = none

/-- There are reports for the digests that are known. -/
def Backed (s : FindingStore δ) : Prop :=
  ∀ {digest : String}, digest ≠ "" → digest ∈ s.seen →
    digest ++ ".json" ∈ Storage.names s.storage

variable {s : FindingStore δ} {actions : List Action} {r : Report} {digest : String}

theorem overlooked_reopen :
    s.Overlooked (actions ++ [.reopen]) digest ↔
      s.Overlooked actions digest ∨ HalfKept (s.perform actions).2.storage digest := by
  constructor
  · rintro ⟨before, after, hsplit, hhalf⟩
    rcases split_concat hsplit with ⟨rfl, -⟩ | ⟨after', rfl⟩
    · exact .inr hhalf
    · exact .inl ⟨before, after', rfl, hhalf⟩
  · rintro (⟨before, after, rfl, hhalf⟩ | hhalf)
    · exact ⟨before, after ++ [.reopen], by simp, hhalf⟩
    · exact ⟨actions, [], rfl, hhalf⟩

theorem overlooked_record :
    s.Overlooked (actions ++ [.record r]) digest ↔ s.Overlooked actions digest := by
  constructor
  · rintro ⟨before, after, hsplit, hhalf⟩
    rcases split_concat hsplit with ⟨-, hreopen⟩ | ⟨after', rfl⟩
    · cases hreopen
    · exact ⟨before, after', rfl, hhalf⟩
  · rintro ⟨before, after, rfl, hhalf⟩
    exact ⟨before, after ++ [.record r], by simp, hhalf⟩

theorem Failed.append (h : s.Failed actions digest) (more : List Action) :
    s.Failed (actions ++ more) digest := by
  obtain ⟨before, r, after, rfl, hr, hnone⟩ := h
  exact ⟨before, r, after ++ more, by simp, hr, hnone⟩

variable [LawfulStorage δ]

/-! ## One step -/

theorem Backed.record (hs : s.Backed) : (s.record r).2.Backed := by
  intro digest hdigest hmem
  by_cases hne : digest = r.hash
  · subst hne
    have hrecorded := s.recorded r
    generalize s.record r = ended at hrecorded hmem ⊢
    cases hrecorded with
    | known _ => exact hs hdigest hmem
    | reportLost hseen _ => exact absurd hmem hseen
    | payloadLost hseen _ _ => exact absurd hmem hseen
    | kept _ hfirst hsecond =>
      exact (mem_names_write_of_ne (report_ne_payload _ _) hsecond).2 (mem_names_written hfirst)
  · rw [report_mem_names_record_of_ne hne]
    exact hs hdigest ((mem_seen_record_of_ne hne).1 hmem)

/-- Recordings neither make a finding stuck nor mend one that is. -/
theorem stuck_record : (s.record r).2.Stuck digest ↔ s.Stuck digest := by
  unfold Stuck
  by_cases hne : digest = r.hash
  · subst hne
    have hrecorded := s.recorded r
    generalize s.record r = ended at hrecorded ⊢
    cases hrecorded with
    | known _ => rfl
    | reportLost hseen _ => exact iff_of_false (fun h => hseen h.1) (fun h => hseen h.1)
    | payloadLost hseen _ _ => exact iff_of_false (fun h => hseen h.1) (fun h => hseen h.1)
    | kept hseen _ hsecond =>
      exact iff_of_false (fun h => h.2 (mem_names_written hsecond)) (fun h => hseen h.1)
  · rw [mem_seen_record_of_ne hne, payload_mem_names_record_of_ne hne]

omit [LawfulStorage δ] in
/-- A store that is opened takes every finding that is half kept for a known one. -/
theorem stuck_reopen (hdigest : digest ≠ "") :
    s.reopen.Stuck digest ↔ HalfKept s.storage digest := by
  unfold Stuck HalfKept
  rw [s.faithful_reopen.mem_seen hdigest]
  rfl

/-- A finding is half kept after a recording only if it was before, or the recording failed. -/
theorem halfKept_record (h : HalfKept (s.record r).2.storage digest) :
    HalfKept s.storage digest ∨ digest = r.hash ∧ (s.record r).1 = none := by
  by_cases hne : digest = r.hash
  · subst hne
    have hrecorded := s.recorded r
    generalize s.record r = ended at hrecorded h ⊢
    cases hrecorded with
    | known _ => exact .inl h
    | reportLost _ _ => exact .inr ⟨rfl, rfl⟩
    | payloadLost _ _ _ => exact .inr ⟨rfl, rfl⟩
    | kept _ _ hsecond => exact absurd (mem_names_written hsecond) h.2
  · unfold HalfKept at h
    rw [report_mem_names_record_of_ne hne, payload_mem_names_record_of_ne hne] at h
    exact .inl h

/-! ## Runs -/

variable {directory : δ}

theorem backed_perform (actions : List Action) : ((start directory).perform actions).2.Backed := by
  induction actions using List.reverseRecOn with
  | nil => exact fun hdigest => ((faithful_start directory).mem_seen hdigest).1
  | append_singleton actions action ih =>
    cases action with
    | record r =>
      rw [perform_record]
      exact ih.record
    | reopen =>
      rw [perform_reopen]
      exact fun hdigest => ((faithful_reopen _).mem_seen hdigest).1

variable (hempty : Storage.names directory = [])

include hempty

/-- What is stuck after a run is what was overlooked in it. -/
theorem stuck_perform (hdigest : digest ≠ "") (actions : List Action) :
    ((start directory).perform actions).2.Stuck digest ↔
      (start directory).Overlooked actions digest := by
  induction actions using List.reverseRecOn with
  | nil =>
    apply iff_of_false
    · rintro ⟨hseen, -⟩
      have hreport := ((faithful_start directory).mem_seen hdigest).1 hseen
      change digest ++ ".json" ∈ Storage.names directory at hreport
      rw [hempty] at hreport
      cases hreport
    · rintro ⟨before, after, hsplit, -⟩
      simp at hsplit
  | append_singleton actions action ih =>
    cases action with
    | record r => rw [perform_record, overlooked_record, stuck_record, ih]
    | reopen =>
      rw [perform_reopen, overlooked_reopen, stuck_reopen hdigest, ← ih]
      -- what is stuck is half kept, so a second opening finds it as it was
      exact (or_iff_right_of_imp fun hstuck =>
        ⟨backed_perform actions hdigest hstuck.1, hstuck.2⟩).symm

/-- A finding is half kept only after a recording of it has failed. -/
theorem failed_of_halfKept (actions : List Action)
    (h : HalfKept ((start directory).perform actions).2.storage digest) :
    (start directory).Failed actions digest := by
  induction actions using List.reverseRecOn with
  | nil =>
    obtain ⟨hreport, -⟩ := h
    change digest ++ ".json" ∈ Storage.names directory at hreport
    rw [hempty] at hreport
    cases hreport
  | append_singleton actions action ih =>
    cases action with
    | record r =>
      rw [perform_record] at h
      rcases halfKept_record h with hbefore | ⟨rfl, hnone⟩
      · exact (ih hbefore).append _
      · exact ⟨actions, r, [], rfl, rfl, hnone⟩
    | reopen =>
      rw [perform_reopen] at h
      exact (ih h).append _

end

section

variable {δ : Type} [Storage δ] [LawfulStorage δ] {directory : δ}

/-- After a run on an empty directory in which any write may fail, a report about a crash is
recorded. If it is answered to be new, both its files are there. If it is answered to be known,
there is a report of its digest, and the payload is missing exactly if the store was opened anew at
a time when the finding was half kept. That needs a recording that failed before. -/
theorem answers_under_outages (hempty : Storage.names directory = []) (actions : List Action)
    {outcome : Outcome} {r : Report} (hcrash : Oracle.crash outcome = some r)
    {answer : Option Bool} {after : FindingStore δ}
    (hrecord : ((start directory).perform actions).2.record r = (answer, after)) :
    (answer = some true →
      node? after.storage (reportName r) = some (.file (Text.utf8 r.json)) ∧
        node? after.storage (payloadName r) = some (.file r.outcome.input)) ∧
    (answer = some false → reportName r ∈ Storage.names after.storage ∧
      (payloadName r ∉ Storage.names after.storage ↔
        (start directory).Overlooked actions r.hash)) ∧
    ((start directory).Overlooked actions r.hash →
      (start directory).Failed actions r.hash) := by
  have hdigest : r.hash ≠ "" := hash_ne_empty_of_crash hcrash
  have hrecorded := recorded ((start directory).perform actions).2 r
  rw [hrecord] at hrecorded
  refine ⟨?_, ?_, ?_⟩
  · rintro rfl
    have hentries := entries_of_record (congrArg Prod.fst hrecord)
    rw [hrecord] at hentries
    exact hentries
  · rintro rfl
    cases hrecorded with
    | known hseen =>
      refine ⟨backed_perform actions hdigest hseen, ?_⟩
      rw [← stuck_perform hempty hdigest actions]
      exact (and_iff_right hseen).symm
  · rintro ⟨before, rest, rfl, hhalf⟩
    exact (failed_of_halfKept hempty before hhalf).append _

end

/-- An empty disk on which the second write fails. -/
def failingDisk : Disk := { outages := [false, true] }

/-- A crash that is recorded, and the store opened anew. -/
def interrupted : List Action := [.record (faultReport "hello" [1]), .reopen]

/-- What becomes of the crash when it comes up again: it is known, and its payload is not there. -/
theorem record_interrupted :
    ∃ after, ((start failingDisk).perform interrupted).2.record (faultReport "hello" [1]) =
        (some false, after) ∧
      payloadName (faultReport "hello" [1]) ∉ Storage.names after.storage := by
  have hanswer : (((start failingDisk).perform interrupted).2.record
      (faultReport "hello" [1])).1 = some false := by
    decide +kernel
  have hmissing : payloadName (faultReport "hello" [1]) ∉
      Storage.names (((start failingDisk).perform interrupted).2.record
        (faultReport "hello" [1])).2.storage := by
    decide +kernel
  rcases hrecord : ((start failingDisk).perform interrupted).2.record (faultReport "hello" [1]) with
    ⟨answer, after⟩
  rw [hrecord] at hanswer hmissing
  obtain rfl : answer = some false := hanswer
  exact ⟨after, rfl, hmissing⟩

/-- The crash was overlooked, since its payload could not be written before. -/
theorem answers_under_outages_interrupted :
    (start failingDisk).Overlooked interrupted (faultReport "hello" [1]).hash ∧
      (start failingDisk).Failed interrupted (faultReport "hello" [1]).hash := by
  obtain ⟨after, hrecord, hmissing⟩ := record_interrupted
  obtain ⟨-, hknown, hfailed⟩ :=
    answers_under_outages rfl interrupted (crash_faultReport "hello" [1]) hrecord
  have hoverlooked := (hknown rfl).2.1 hmissing
  exact ⟨hoverlooked, hfailed hoverlooked⟩

/-- It is not so that both files are there whenever a store answers: the payload can be missing. -/
theorem payload_missing :
    ¬ ∀ disk : Disk, Storage.names disk = [] → ∀ actions : List Action,
      (∀ r ∈ reports actions, ∃ outcome, Oracle.crash outcome = some r) →
      ∀ (outcome : Outcome) (r : Report), Oracle.crash outcome = some r →
      ∀ (answer : Bool) (after : FindingStore Disk),
        ((start disk).perform actions).2.record r = (some answer, after) →
        reportName r ∈ Storage.names after.storage ∧
          payloadName r ∈ Storage.names after.storage := by
  intro h
  obtain ⟨after, hrecord, hmissing⟩ := record_interrupted
  have hcrash := crash_faultReport "hello" [1]
  refine hmissing (h failingDisk rfl interrupted ?_ _ _ hcrash false after hrecord).2
  intro r hr
  obtain rfl := List.mem_singleton.1 hr
  exact ⟨_, hcrash⟩

end FindingStore

end ScriptFuzz
