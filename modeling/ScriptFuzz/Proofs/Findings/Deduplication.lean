import Mathlib.Data.List.Induction
import ScriptFuzz.Proofs.Findings.Runs

/-!
# Findings are kept once

Over the whole life of a directory of findings, each digest is kept for the first report that has
it, and re-openings of the store cannot be noticed.

- `FindingStore.IsNew`: a report is the first of its digest.
- `FindingStore.Deduplicated`: the answers and the files that the reports alone call for.
- `FindingStore.Alike`: stores on one storage that know the same digests. They give the same answers
  and write the same files, which is why re-openings do not matter.
- `FindingStore.perform_deduplicated`: a run in which every write succeeds is deduplicated, and so
  is every other run with the same reports.
-/

namespace ScriptFuzz

namespace FindingStore

open LawfulStorage

section

variable {δ : Type} [Storage δ]

/-- A report is the first with its digest, in a directory and among the reports before it. -/
def IsNew (directory : δ) (before : List Report) (r : Report) : Prop :=
  reportName r ∉ Storage.names directory ∧ ∀ earlier ∈ before, earlier.hash ≠ r.hash

instance (directory : δ) (before : List Report) (r : Report) :
    Decidable (IsNew directory before r) :=
  inferInstanceAs (Decidable (_ ∧ _))

/-- Answers and a storage are what the reports call for: the first report of each digest is kept,
and nothing else is written. -/
structure Deduplicated [LawfulStorage δ] (directory : δ) (reports : List Report)
    (answers : List (Option Bool)) (after : δ) : Prop where
  /-- Every report is answered. -/
  length : answers.length = reports.length
  /-- The answer is whether the report is new. -/
  answer : ∀ {before r rest}, reports = before ++ r :: rest →
    answers[before.length]? = some (some (decide (IsNew directory before r)))
  /-- There are both files of a new report, as it is written. -/
  kept : ∀ {before r rest}, reports = before ++ r :: rest → IsNew directory before r →
    node? after (reportName r) = some (.file (Text.utf8 r.json)) ∧
      node? after (payloadName r) = some (.file r.outcome.input)
  /-- There is nothing else that has changed. -/
  untouched : ∀ {name},
    (∀ {before r rest}, reports = before ++ r :: rest → IsNew directory before r →
      name ≠ reportName r ∧ name ≠ payloadName r) →
    node? after name = node? directory name

end

/-! ## Stores that know the same -/

section

variable {δ : Type} [Storage δ]

/-- Stores on one storage that both know what is in it. -/
structure Alike (s t : FindingStore δ) : Prop where
  /-- They keep their files in one place. -/
  storage : s.storage = t.storage
  /-- The first store is faithful. -/
  left : s.Faithful
  /-- The second store is faithful. -/
  right : t.Faithful

variable {s t : FindingStore δ} {r : Report}

theorem Alike.contains (h : Alike s t) (hr : r.hash ≠ "") :
    s.seen.contains r.hash = t.seen.contains r.hash := by
  rw [Bool.eq_iff_iff, List.contains_iff_mem, List.contains_iff_mem, h.left.mem_seen hr,
    h.right.mem_seen hr, h.storage]

theorem Alike.record_eq (h : Alike s t) (hr : r.hash ≠ "") :
    (s.record r).1 = (t.record r).1 ∧ (s.record r).2.storage = (t.record r).2.storage := by
  unfold record
  rw [h.contains hr, h.storage]
  split
  · exact ⟨rfl, h.storage⟩
  · split
    · exact ⟨rfl, rfl⟩
    · split
      · exact ⟨rfl, rfl⟩
      · exact ⟨rfl, rfl⟩

variable [LawfulStorage δ]

theorem Alike.record (h : Alike s t) (hr : r.hash ≠ "") (hanswer : (s.record r).1 ≠ none) :
    Alike (s.record r).2 (t.record r).2 := by
  obtain ⟨heq, hstorage⟩ := h.record_eq hr
  exact {
    storage := hstorage
    left := h.left.record hanswer
    right := h.right.record (heq ▸ hanswer) }

/-- Re-openings make no difference: a run goes as the run of its reports alone. If one of them meets
a write that fails, nothing is said, since a store that is opened after it may know more. -/
theorem Alike.perform_reports (actions : List Action) (h : Alike s t)
    (hhashes : ∀ r ∈ reports actions, r.hash ≠ "")
    (hwritten : none ∉ (s.perform actions).1 ∨
      none ∉ (t.perform ((reports actions).map .record)).1) :
    (s.perform actions).1 = (t.perform ((reports actions).map .record)).1 ∧
      (s.perform actions).2.storage =
        (t.perform ((reports actions).map .record)).2.storage := by
  induction actions generalizing s t with
  | nil => exact ⟨rfl, h.storage⟩
  | cons action actions ih =>
    cases action with
    | reopen =>
      exact ih { storage := h.storage, left := s.faithful_reopen, right := h.right }
        hhashes hwritten
    | record r =>
      have hr : r.hash ≠ "" := hhashes r List.mem_cons_self
      have hrest : ∀ r' ∈ reports actions, r'.hash ≠ "" := fun r' h' =>
        hhashes r' (List.mem_cons_of_mem _ h')
      have hfirst := (h.record_eq hr).1
      have hanswer : (s.record r).1 ≠ none := by
        rcases hwritten with hwritten | hwritten
        · exact fun hnone => hwritten (hnone ▸ List.mem_cons_self)
        · exact fun hnone => hwritten (hnone ▸ hfirst ▸ List.mem_cons_self)
      have htail := ih (h.record hr hanswer) hrest
        (hwritten.imp (fun hs hmem => hs (List.mem_cons_of_mem _ hmem))
          (fun ht hmem => ht (List.mem_cons_of_mem _ hmem)))
      refine ⟨?_, htail.2⟩
      show (s.record r).1 :: ((s.record r).2.perform actions).1 =
        (t.record r).1 :: ((t.record r).2.perform ((reports actions).map .record)).1
      rw [hfirst, htail.1]

end

/-! ## What is kept -/

section

variable {δ : Type} [Storage δ]

/-- A store knows what was there before it and what it was given. -/
structure Remembers (directory : δ) (reports : List Report) (s : FindingStore δ) : Prop where
  /-- What it knows is in its storage. -/
  faithful : s.Faithful
  /-- It knows exactly the digests that were there and those of the reports. -/
  mem_seen : ∀ {digest}, digest ≠ "" →
    (digest ∈ s.seen ↔
      digest ++ ".json" ∈ Storage.names directory ∨ ∃ r ∈ reports, r.hash = digest)

variable {directory : δ} {earlier : List Report} {answers : List (Option Bool)}
  {s : FindingStore δ} {r : Report}

theorem Remembers.start : Remembers directory [] (start directory) where
  faithful := faithful_start directory
  mem_seen hdigest := by
    rw [(faithful_start directory).mem_seen hdigest]
    simp [FindingStore.start]

theorem Remembers.reopen (h : Remembers directory earlier s) :
    Remembers directory earlier s.reopen where
  faithful := s.faithful_reopen
  mem_seen hdigest := by
    rw [← h.mem_seen hdigest, s.faithful_reopen.mem_seen hdigest, h.faithful.mem_seen hdigest]
    rfl

theorem Remembers.isNew_iff (h : Remembers directory earlier s) (hr : r.hash ≠ "") :
    IsNew directory earlier r ↔ r.hash ∉ s.seen := by
  rw [h.mem_seen hr, not_or, not_exists]
  simp only [not_and]
  rfl

variable [LawfulStorage δ]

theorem Remembers.record (h : Remembers directory earlier s)
    (hanswer : (s.record r).1 ≠ none) :
    Remembers directory (earlier ++ [r]) (s.record r).2 where
  faithful := h.faithful.record hanswer
  mem_seen {digest} hdigest := by
    have hsplit : (∃ r' ∈ earlier ++ [r], r'.hash = digest) ↔
        (∃ r' ∈ earlier, r'.hash = digest) ∨ r.hash = digest := by
      simp [or_and_right, exists_or]
    rw [hsplit, ← or_assoc, ← h.mem_seen hdigest]
    have hrecorded := s.recorded r
    generalize s.record r = ended at hanswer hrecorded ⊢
    cases hrecorded with
    | known hseen =>
      exact ⟨.inl, fun hor => hor.elim id fun heq => heq ▸ hseen⟩
    | reportLost _ _ => exact absurd rfl hanswer
    | payloadLost _ _ _ => exact absurd rfl hanswer
    | kept _ _ _ =>
      show digest ∈ r.hash :: s.seen ↔ _
      rw [List.mem_cons, or_comm, eq_comm]

theorem Deduplicated.start : Deduplicated directory [] [] directory where
  length := rfl
  answer h := by simp at h
  kept h := by simp at h
  untouched _ := rfl

variable {after : δ}

theorem Deduplicated.answer_concat (h : Deduplicated directory earlier answers after)
    {before rest : List Report} {r' : Report}
    (hsplit : earlier ++ [r] = before ++ r' :: rest) :
    (answers ++ [some (decide (IsNew directory earlier r))])[before.length]? =
      some (some (decide (IsNew directory before r'))) := by
  rcases split_concat hsplit with ⟨rfl, rfl⟩ | ⟨rest, rfl⟩
  · rw [← h.length, List.getElem?_concat_length]
  · have hold := h.answer rfl
    rw [List.getElem?_append_left (List.getElem?_eq_some_iff.1 hold).1, hold]

/-- A report that is not new is answered so, and nothing is done about it. -/
theorem Deduplicated.known (h : Deduplicated directory earlier answers after)
    (hnew : ¬ IsNew directory earlier r) :
    Deduplicated directory (earlier ++ [r]) (answers ++ [some false]) after where
  length := by simp [h.length]
  answer hsplit := decide_eq_false hnew ▸ h.answer_concat hsplit
  kept hsplit hnew' := by
    rcases split_concat hsplit with ⟨rfl, rfl⟩ | ⟨rest, rfl⟩
    · exact absurd hnew' hnew
    · exact h.kept rfl hnew'
  untouched hname := h.untouched fun hsplit hnew' =>
    hname (by rw [hsplit, List.append_assoc]; rfl) hnew'

/-- A report that is new is kept, and no file of an earlier one is in its way. -/
theorem Deduplicated.new {second : δ} (h : Deduplicated directory earlier answers after)
    (hnew : IsNew directory earlier r)
    (hreport : node? second (reportName r) = some (.file (Text.utf8 r.json)))
    (hpayload : node? second (payloadName r) = some (.file r.outcome.input))
    (hother : ∀ {name}, name ≠ reportName r → name ≠ payloadName r →
      node? second name = node? after name) :
    Deduplicated directory (earlier ++ [r]) (answers ++ [some true]) second where
  length := by simp [h.length]
  answer hsplit := decide_eq_true hnew ▸ h.answer_concat hsplit
  kept {before r' rest} hsplit hnew' := by
    rcases split_concat hsplit with ⟨rfl, rfl⟩ | ⟨rest, rfl⟩
    · exact ⟨hreport, hpayload⟩
    · have hhash : r'.hash ≠ r.hash := hnew.2 r' (by simp)
      obtain ⟨hreport', hpayload'⟩ := h.kept rfl hnew'
      constructor
      · exact (hother (report_ne_report hhash) (report_ne_payload _ _)).trans hreport'
      · exact (hother (report_ne_payload _ _).symm (payload_ne_payload hhash)).trans hpayload'
  untouched hname := by
    obtain ⟨hne, hne'⟩ := hname rfl hnew
    rw [hother hne hne']
    exact h.untouched fun hsplit hnew' =>
      hname (by rw [hsplit, List.append_assoc]; rfl) hnew'

/-- What one recording adds to a run in which every write has succeeded. -/
theorem Remembers.deduplicated_record (hs : Remembers directory earlier s)
    (hd : Deduplicated directory earlier answers s.storage) (hr : r.hash ≠ "")
    (hwritten : (s.record r).1 ≠ none) :
    Remembers directory (earlier ++ [r]) (s.record r).2 ∧
      Deduplicated directory (earlier ++ [r]) (answers ++ [(s.record r).1])
        (s.record r).2.storage := by
  refine ⟨hs.record hwritten, ?_⟩
  have hreport := entries_of_record (s := s) (r := r)
  have hother : ∀ name, name ≠ reportName r → name ≠ payloadName r →
      node? (s.record r).2.storage name = node? s.storage name := fun _ hne hne' =>
    node?_record_of_ne hne hne'
  have hrecorded := s.recorded r
  generalize s.record r = ended at hwritten hreport hother hrecorded ⊢
  cases hrecorded with
  | known hseen => exact hd.known fun hnew => (hs.isNew_iff hr).1 hnew hseen
  | reportLost _ _ => exact absurd rfl hwritten
  | payloadLost _ _ _ => exact absurd rfl hwritten
  | kept hseen _ _ =>
    exact hd.new ((hs.isNew_iff hr).2 hseen) (hreport rfl).1 (hreport rfl).2 (hother _)

/-- A run in which every write succeeds keeps each digest for the first report that has it. The
induction is on the actions from the last one back, since a report is new or not by what is before
it. -/
theorem deduplicated_of_written (actions : List Action)
    (hhashes : ∀ r ∈ reports actions, r.hash ≠ "")
    (hwritten : none ∉ ((FindingStore.start directory).perform actions).1) :
    Remembers directory (reports actions) ((FindingStore.start directory).perform actions).2 ∧
      Deduplicated directory (reports actions)
        ((FindingStore.start directory).perform actions).1
        ((FindingStore.start directory).perform actions).2.storage := by
  induction actions using List.reverseRecOn with
  | nil => exact ⟨.start, .start⟩
  | append_singleton actions action ih =>
    cases action with
    | reopen =>
      have hreports : reports (actions ++ [.reopen]) = reports actions := by
        simp [reports, Action.report?]
      rw [hreports] at hhashes ⊢
      rw [perform_reopen] at hwritten ⊢
      obtain ⟨hs, hd⟩ := ih hhashes hwritten
      exact ⟨hs.reopen, hd⟩
    | record r =>
      have hreports : reports (actions ++ [.record r]) = reports actions ++ [r] := by
        simp [reports, Action.report?]
      rw [hreports] at hhashes ⊢
      rw [perform_record] at hwritten ⊢
      simp only [List.mem_append, List.mem_singleton, not_or] at hwritten
      obtain ⟨hs, hd⟩ := ih (fun r' h => hhashes r' (List.mem_append_left _ h)) hwritten.1
      exact hs.deduplicated_record hd (hhashes r (by simp)) (Ne.symm hwritten.2)

end

section

variable {δ : Type} [Storage δ] [LawfulStorage δ] {directory : δ}

/-- A run on a directory, of reports about crashes, in which no write fails: each digest is kept for
the first report that has it, unless the directory had it already, and nothing else in the directory
changes. Every other run with these reports, however often the store is opened anew in it, gives the
same answers and leaves the same directory. -/
theorem perform_deduplicated (actions : List Action)
    (hcrash : ∀ r ∈ reports actions, ∃ outcome, Oracle.crash outcome = some r)
    (hwritten : none ∉ ((start directory).perform actions).1) :
    Deduplicated directory (reports actions) ((start directory).perform actions).1
        ((start directory).perform actions).2.storage ∧
      ∀ others, reports others = reports actions →
        ((start directory).perform others).1 = ((start directory).perform actions).1 ∧
          ((start directory).perform others).2.storage =
            ((start directory).perform actions).2.storage := by
  have hhashes : ∀ r ∈ reports actions, r.hash ≠ "" := by
    intro r hr
    obtain ⟨outcome, houtcome⟩ := hcrash r hr
    exact hash_ne_empty_of_crash houtcome
  have halike : Alike (start directory) (start directory) :=
    { storage := rfl, left := faithful_start directory, right := faithful_start directory }
  refine ⟨(deduplicated_of_written actions hhashes hwritten).2, ?_⟩
  intro others hothers
  obtain ⟨hanswers, hstorage⟩ := halike.perform_reports actions hhashes (.inl hwritten)
  rw [hanswers] at hwritten
  obtain ⟨hanswers', hstorage'⟩ :=
    halike.perform_reports others (hothers ▸ hhashes) (.inr (hothers ▸ hwritten))
  rw [hanswers', hstorage', hanswers, hstorage, hothers]
  exact ⟨rfl, rfl⟩

end

/-- A directory with a report from before, and a note. -/
def oldDirectory : Folder :=
  { entries := [("55a54008ad1ba589aa210d2629c1df41.json", .file []), ("notes", .file [1])] }

/-- Two crashes on one payload, and one on a payload that the directory has a report for. -/
def threeCrashes : List Action :=
  [.record (faultReport "hello" [2]), .reopen, .record (faultReport "goodbye" [2]),
    .record (faultReport "hello" [1]), .reopen]

/-- Of three crashes only the first is new, with the store opened anew in between or not. -/
theorem perform_deduplicated_threeCrashes :
    ((start oldDirectory).perform threeCrashes).1 = [some true, some false, some false] ∧
      Deduplicated oldDirectory (reports threeCrashes) ((start oldDirectory).perform threeCrashes).1
        ((start oldDirectory).perform threeCrashes).2.storage ∧
      ((start oldDirectory).perform ((reports threeCrashes).map .record)).1 =
        ((start oldDirectory).perform threeCrashes).1 := by
  have hanswers : ((start oldDirectory).perform threeCrashes).1 =
      [some true, some false, some false] := by
    decide +kernel
  have hcrash : ∀ r ∈ reports threeCrashes, ∃ outcome, Oracle.crash outcome = some r := by
    intro r hr
    have hmem : r ∈ [faultReport "hello" [2], faultReport "goodbye" [2],
        faultReport "hello" [1]] := hr
    simp only [List.mem_cons, List.not_mem_nil, or_false] at hmem
    rcases hmem with rfl | rfl | rfl
    · exact ⟨_, crash_faultReport _ _⟩
    · exact ⟨_, crash_faultReport _ _⟩
    · exact ⟨_, crash_faultReport _ _⟩
  obtain ⟨hdeduplicated, hothers⟩ := perform_deduplicated threeCrashes hcrash (by
    rw [hanswers]
    decide)
  exact ⟨hanswers, hdeduplicated, (hothers _ (reports_map_record _)).1⟩

end FindingStore

end ScriptFuzz
