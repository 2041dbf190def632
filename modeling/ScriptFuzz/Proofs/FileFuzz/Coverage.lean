import Mathlib
import ScriptFuzz.Campaign.Rehearsal
import ScriptFuzz.Proofs.FileFuzz.Folders
import ScriptFuzz.Proofs.Findings.Storage

/-!
# Coverage of files

Fuzzing with a file leaves no variant of it out and reports what the target did on each, and fuzzing
with a folder adds up what its files gave. Where something fails, fuzzing ends there.

- `Session.variants_covered`: walks through files, and folders, with any target.
- `runs_left_out`: what else than the target may keep runs from being done.
-/

namespace ScriptFuzz.FileFuzz

open FileWalk (variants)

namespace Session

section Totals

variable {ω δ : Type}

/-- The totals, if nothing failed. -/
def tally? : EStateM.Result Failure (Session ω δ) Unit → Option Tally
  | .ok _ s => some s.tally
  | .error _ _ => none

theorem ne_error_of_tally? {r : EStateM.Result Failure (Session ω δ) Unit} {t : Tally}
    (h : tally? r = some t) (e : Failure) (s : Session ω δ) : r ≠ .error e s := by
  rintro rfl
  cases h

end Totals

variable {ω δ : Type} [Target ω] [PayloadFiles ω] [InputFiles ω] [Storage δ]

/-- A walk, whichever state it is in, comes to all variants of its file in their order, and the
totals are those of the runs on them. A folder comes to all its files that can be read and are not
empty, in the order of their paths, and adds their totals up. Both end at the first failure and give
it back, and so does a folder that cannot be listed. -/
theorem variants_covered (plan : Plan) (s : Session ω δ) :
    (∀ (w : FileWalk) (hdata : w.data ≠ []),
      ((∀ e world, ¬BreaksOff plan w.name (variants w.name w.data) e s.world world) →
        ∃ runs world store, Runs plan w.name runs s.world world ∧
          runs.map Run.variant = variants w.name w.data ∧ runs.length = 2 * w.data.length ∧
          runWalk plan w hdata s = ({ w with phase := .done, offset := w.data.length },
            .ok () { world, store, tally := s.tally.add (.ofFile plan w.name runs) })) ∧
      ∀ e world, BreaksOff plan w.name (variants w.name w.data) e s.world world →
        ∃ s', s'.world = world ∧ (runWalk plan w hdata s).2 = .error e s') ∧
    ∀ path : String, InputFiles.isFolder path s.world →
      (∀ reason, InputFiles.list path s.world = .error reason →
        runPath plan path s = .error (.listing path reason) s) ∧
      ∀ names, InputFiles.list path s.world = .ok names →
        ∃ files : List String, files.Pairwise (· ≤ ·) ∧
          files.Perm ((names.map (Path.join path)).filter (InputFiles.isFile · s.world)) ∧
          ((∀ e world, ¬WalksBreakOff plan files e s.world world) →
            ∃ reports world store, Walks plan files reports s.world world ∧
              runPath plan path s =
                .ok () { world, store, tally := s.tally.add (.sum reports) }) ∧
          ∀ e world, WalksBreakOff plan files e s.world world →
            ∃ s', s'.world = world ∧ runPath plan path s = .error e s' := by
  constructor
  · intro w hdata
    constructor
    · intro hnone
      obtain ⟨runs, world, hvariants, hruns⟩ | ⟨e, world, hbreak⟩ :=
        runs_or_breaksOff plan w.name (variants w.name w.data) s.world
      · have hlength : runs.length = 2 * w.data.length := by
          rw [← FileWalk.length_variants w.name, ← hvariants, List.length_map]
        obtain ⟨store, hwalk⟩ := runWalk_of_runs hdata hruns hvariants
        exact ⟨runs, world, store, hruns, hvariants, hlength, hwalk⟩
      · exact absurd hbreak (hnone e world)
    · intro e world hbreak
      exact runWalk_of_breaksOff hdata hbreak
  · intro path hfolder
    rw [runPath_of_folder hfolder]
    refine ⟨fun reason hlist => runFolder_of_unlisted hlist, fun names hlist => ?_⟩
    rw [runFolder_of_list hlist]
    refine ⟨inputFiles path names s.world, pairwise_inputFiles path names s.world,
      perm_inputFiles path names s.world, fun hnone => ?_, fun e world hbreak => ?_⟩
    · obtain ⟨reports, world, hwalks⟩ | ⟨e, world, hbreak⟩ :=
        walks_or_breakOff plan (inputFiles path names s.world) s.world
      · obtain ⟨store, hfiles⟩ := runFiles_of_walks hwalks
        exact ⟨reports, world, store, hwalks, hfiles⟩
      · exact absurd hbreak (hnone e world)
    · exact runFiles_of_breakOff hbreak

/-- A folder with four files, one of them empty, and an empty folder. -/
def fewFiles : Folder :=
  [("b", [3]), ("c", []), ("d", [9]), ("a", [7])].foldl
    (fun folder (name, data) => folder.insertAt (.file data) ["in", name])
    (({} : Folder).insert "shut" (.folder []))

/-- A target that hangs, crashes, ends without a status, and ends well from then on. One of the
files cannot be read, and one of the folders cannot be listed. -/
def fickle : Session Rehearsal Folder where
  world := {
    behaviours := [{ hangs := true }, { crash := .always }, { noStatus := true }, {}]
    files := fewFiles
    locked := ["in/d", "shut"] }

/-- Every ending that is not normal is reported, in no words. -/
def tersePlan : Plan where
  oracle := fun outcome =>
    if outcome.ending.isAbnormal then
      some { outcome, description := "", hash := "", severity := 1 }
    else none

/-- The totals of four runs on the target, with the crash on the given variant. -/
def fourRuns (files : Nat) (template state : String) (input : Bytes) : Tally where
  files
  executions := 4
  timeouts := 1
  findings := #[{
    outcome := { template, state, input, exitCode := 139, ending := .segmentationFault }
    description := ""
    hash := ""
    severity := 1 }]

/-- A walk at its end. -/
def finishedWalk : FileWalk := { name := "seed", data := [1, 2], phase := .done, offset := 2 }

set_option maxRecDepth 10000 in
/-- A walk at its end starts anew and comes to four variants. In the folder, the file that was put
in last comes first. -/
theorem variants_covered_fickle :
    (∃ hdata : finishedWalk.data ≠ [],
      (∀ e world, ¬BreaksOff tersePlan "seed" (variants "seed" [1, 2]) e fickle.world world) ∧
      ∃ (runs : List Run) (world : Rehearsal) (store : Option (FindingStore Folder)),
        runs.map Run.variant = variants "seed" [1, 2] ∧ runs.length = 4 ∧
        runWalk tersePlan finishedWalk hdata fickle = (finishedWalk, .ok () {
          world
          store
          tally := fourRuns 1 "seed" "file: \"seed\", bitinverse, offset=1" [1, 253] })) ∧
    (InputFiles.isFolder "in" fickle.world ∧
      InputFiles.list "in" fickle.world = .ok ["a", "b", "c", "d"] ∧
      ∃ (files : List String) (reports : List Tally) (world : Rehearsal)
        (store : Option (FindingStore Folder)),
        files.Perm ["in/a", "in/b", "in/c", "in/d"] ∧
        (∀ e world, ¬WalksBreakOff tersePlan files e fickle.world world) ∧
        Walks tersePlan files reports fickle.world world ∧
        runPath tersePlan "in" fickle = .ok () {
          world
          store
          tally := fourRuns 2 "in/a" "file: \"in/a\", byteremoval, offset=0" [] }) ∧
    InputFiles.isFolder "shut" fickle.world ∧
      InputFiles.list "shut" fickle.world = .error "Permission denied (os error 13)" ∧
      runPath tersePlan "shut" fickle =
        .error (.listing "shut" "Permission denied (os error 13)") fickle := by
  obtain ⟨hwalks, hfolders⟩ := variants_covered tersePlan fickle
  refine ⟨?_, ?_, ?_⟩
  · have hdata : finishedWalk.data ≠ [] := List.cons_ne_nil _ _
    have htally : tally? (runWalk tersePlan finishedWalk hdata fickle).2 =
        some (fourRuns 1 "seed" "file: \"seed\", bitinverse, offset=1" [1, 253]) := by
      cbv
    obtain ⟨hcover, hfail⟩ := hwalks finishedWalk hdata
    -- A walk that broke off would have failed, and this one did not.
    have hnone : ∀ e world,
        ¬BreaksOff tersePlan "seed" (variants "seed" [1, 2]) e fickle.world world := by
      intro e world hbreak
      obtain ⟨s', -, herror⟩ := hfail e world hbreak
      exact ne_error_of_tally? htally e s' herror
    obtain ⟨runs, world, store, -, hvariants, hlength, hrun⟩ := hcover hnone
    rw [hrun] at htally
    have htotals : fickle.tally.add (.ofFile tersePlan "seed" runs) = _ := Option.some.inj htally
    refine ⟨hdata, hnone, runs, world, store, hvariants, hlength, ?_⟩
    rw [hrun, ← htotals]
    rfl
  · have htally : tally? (runPath tersePlan "in" fickle) =
        some (fourRuns 2 "in/a" "file: \"in/a\", byteremoval, offset=0" []) := by
      cbv
    have hfolder : InputFiles.isFolder "in" fickle.world := by
      cbv
    have hlist : InputFiles.list "in" fickle.world = .ok ["a", "b", "c", "d"] := by
      cbv
    have hpaths : (["a", "b", "c", "d"].map (Path.join "in")).filter
        (InputFiles.isFile · fickle.world) = ["in/a", "in/b", "in/c", "in/d"] := by
      cbv
    obtain ⟨files, -, hfiles, hcover, hfail⟩ := (hfolders "in" hfolder).2 _ hlist
    have hnone : ∀ e world, ¬WalksBreakOff tersePlan files e fickle.world world := by
      intro e world hbreak
      obtain ⟨s', -, herror⟩ := hfail e world hbreak
      exact ne_error_of_tally? htally e s' herror
    obtain ⟨reports, world, store, hwalks, hrun⟩ := hcover hnone
    rw [hrun] at htally
    have htotals : fickle.tally.add (.sum reports) = _ := Option.some.inj htally
    refine ⟨hfolder, hlist, files, reports, world, store, hpaths ▸ hfiles, hnone, hwalks, ?_⟩
    rw [hrun, ← htotals]
  · have hfolder : InputFiles.isFolder "shut" fickle.world := by
      cbv
    have hlist : InputFiles.list "shut" fickle.world =
        .error "Permission denied (os error 13)" := by
      cbv
    exact ⟨hfolder, hlist, (hfolders "shut" hfolder).1 _ hlist⟩

end Session

/-! ## Payload files that cannot be made -/

/-- The payload files for a file with an extension have that extension too. -/
theorem suffix_append {stem extension : String} {c : Char} (hc : c ∈ stem.toList) (hne : c ≠ '.')
    (hslash : '/' ∉ (stem ++ "." ++ extension).toList) (hdot : '.' ∉ extension.toList) :
    suffix (stem ++ "." ++ extension) = "." ++ extension := by
  have hstem : stem ≠ "" := by
    rintro rfl
    cases hc
  have hmem : c ∈ (stem ++ "." ++ extension).toList := by
    rw [String.toList_append, String.toList_append, List.append_assoc]
    exact List.mem_append_left _ hc
  have hdots : stem ++ "." ++ extension ∉ ["", ".", ".."] := by
    intro h
    simp only [List.mem_cons, List.not_mem_nil, or_false] at h
    obtain h | h | h := h <;> rw [h] at hmem <;> simp_all
  rw [suffix, Path.extension?, Path.fileName?_of_not_mem hslash hdots, Option.bind_some,
    splitExtension_append hstem hdot]

/-- A rehearsal makes no payload file whose name is too long, and then the target is not run. -/
theorem runWalk_of_long {δ : Type} [Storage δ] {w : FileWalk} (hdata : w.data ≠ [])
    (hlong : Path.maxName < Rehearsal.payloadNameLength + (suffix w.name).utf8ByteSize)
    (plan : Plan) (s : Session Rehearsal δ) :
    ∃ s', s'.world = s.world ∧ (Session.runWalk plan w hdata s).2 = .error .payload s' := by
  have hcreate : ∀ payload : Bytes,
      PayloadFiles.create (suffix w.name) payload s.world = (none, s.world) := fun payload => by
    show (if _ then _ else if _ then _ else _) = _
    rw [if_pos hlong, ite_self]
  refine Session.runWalk_of_breaksOff hdata ?_
  cases hvariants : variants w.name w.data with
  | nil =>
    have hlength := FileWalk.length_variants w.name w.data
    rw [hvariants, List.length_nil] at hlength
    have hpos := List.length_pos_iff.2 hdata
    omega
  | cons variant behind => exact .here variant.2 behind (.payload (hcreate variant.1))

/-- An extension that is too long for payload files. -/
def longExtension : String := .ofList (List.replicate 244 'y')

theorem not_mem_longExtension {c : Char} (hc : c ≠ 'y') : c ∉ longExtension.toList := by
  have htoList : longExtension.toList = List.replicate 244 'y' := String.toList_ofList
  exact htoList ▸ fun h => hc (List.eq_of_mem_replicate h)

theorem suffix_longExtension : suffix ("x" ++ "." ++ longExtension) = "." ++ longExtension := by
  have hslash : '/' ∉ ("x" ++ "." ++ longExtension).toList := by
    rw [String.toList_append, List.mem_append, not_or]
    exact ⟨by decide +kernel, not_mem_longExtension (by decide)⟩
  have hx : 'x' ∈ "x".toList := by decide +kernel
  exact suffix_append hx (by decide) hslash (not_mem_longExtension (by decide))

/-- A file of one byte with that extension. -/
def longWalk : FileWalk := { name := "x" ++ "." ++ longExtension, data := [1] }

theorem suffix_longWalk :
    Path.maxName < Rehearsal.payloadNameLength + (suffix longWalk.name).utf8ByteSize := by
  have hname : longWalk.name = "x" ++ "." ++ longExtension := rfl
  have hsize : longExtension.utf8ByteSize = 244 := by decide +kernel
  have hdot : ".".utf8ByteSize = 1 := rfl
  rw [hname, suffix_longExtension, String.utf8ByteSize_append, Path.maxName,
    Rehearsal.payloadNameLength]
  omega

/-- A target that always ends well, a folder with a file that cannot be read among others, and a
folder that cannot be listed. -/
def barred : Rehearsal where
  files := Session.fewFiles
  locked := ["in/d", "shut"]

set_option maxRecDepth 10000 in
/-- No launch fails, no wait and no stop. And yet there is no run without a payload file, the folder
gives no runs on the file that cannot be read, and there is no sum for a folder whose names cannot
be had. -/
theorem runs_left_out :
    (∀ launch, (barred.behaviour launch).launchFails = false ∧
      (barred.behaviour launch).waitFails = false ∧
      (barred.behaviour launch).terminateFails = false) ∧
    (∃ (hdata : longWalk.data ≠ []) (s' : Session Rehearsal Folder),
      (Session.runWalk {} longWalk hdata { world := barred }).2 = .error .payload s' ∧
      s'.world.launches = 0) ∧
    (barred.files.resolve "in" =
        .ok (.folder [("a", .file [7]), ("b", .file [3]), ("c", .file []), ("d", .file [9])]) ∧
      Session.tally? (Session.runPath (δ := Folder) {} "in" { world := barred }) =
        some { files := 2, executions := 4 }) ∧
    InputFiles.isFolder "shut" barred ∧
      Session.runPath (δ := Folder) {} "shut" { world := barred } =
        .error (.listing "shut" "Permission denied (os error 13)") { world := barred } := by
  refine ⟨fun launch => ⟨rfl, rfl, rfl⟩, ?_, ⟨by cbv, by cbv⟩, by cbv, ?_⟩
  · have hdata : longWalk.data ≠ [] := List.cons_ne_nil 1 []
    obtain ⟨s', hworld, hrun⟩ := runWalk_of_long hdata suffix_longWalk {}
      ({ world := barred } : Session Rehearsal Folder)
    exact ⟨hdata, s', hrun, hworld ▸ rfl⟩
  · have hfolder : InputFiles.isFolder "shut" barred := by
      cbv
    have hlist : InputFiles.list "shut" barred = .error "Permission denied (os error 13)" := by
      cbv
    rw [Session.runPath_of_folder hfolder, Session.runFolder_of_unlisted hlist]

end ScriptFuzz.FileFuzz
