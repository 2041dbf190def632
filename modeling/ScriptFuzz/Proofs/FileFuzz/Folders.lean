import ScriptFuzz.Proofs.FileFuzz.Walks
import ScriptFuzz.Proofs.Folders.Paths

/-!
# Folders with the target

The files of a folder are walked through one after the other, in the order of their paths. Those
that are empty or cannot be read when it is their turn are passed over. What the walks found is
added up.

- `Unusable`: files that are passed over.
- `Walks`, `WalksBreakOff`: walks through files, all of them or up to a failure.
- `walks_or_breakOff`: either all walks are done, or they break off.
- `Session.perm_inputFiles`, `Session.pairwise_inputFiles`: the files of a folder in their order.
- `Session.inputFiles_eq`: the order of their paths is that of their names.
- `Session.runFiles_of_walks`, `Session.runFiles_of_breakOff`: what is done for files.
-/

namespace ScriptFuzz.FileFuzz

open FileWalk (variants)

section Relations

variable {ω : Type} [InputFiles ω]

/-- What holds of a file that is passed over: it cannot be read, or there is nothing in it. -/
def Unusable (path : String) (world : ω) : Prop :=
  ∀ data, InputFiles.read path world = .ok data → data = []

/-- A file is passed over, or it can be read and holds something. -/
theorem unusable_or_read (path : String) (world : ω) :
    Unusable path world ∨ ∃ data, InputFiles.read path world = .ok data ∧ data ≠ [] := by
  cases hread : InputFiles.read path world with
  | error reason =>
    left
    intro data hdata
    rw [hread] at hdata
    cases hdata
  | ok data =>
    by_cases hdata : data = []
    · left
      intro data' hdata'
      rw [hread] at hdata'
      cases hdata'
      exact hdata
    · exact .inr ⟨data, rfl, hdata⟩

variable [Target ω] [PayloadFiles ω]

/-- Walks through files, one after the other, with the totals of each. -/
inductive Walks (plan : Plan) : List String → List Tally → ω → ω → Prop
  | nil (w : ω) : Walks plan [] [] w w
  | passedOver {path : String} {paths : List String} {reports : List Tally} {w₀ w₁ : ω}
      (hunusable : Unusable path w₀) (hwalks : Walks plan paths reports w₀ w₁) :
      Walks plan (path :: paths) reports w₀ w₁
  | walked {path : String} {data : Bytes} {paths : List String} {runs : List Run}
      {reports : List Tally} {w₀ w₁ w₂ : ω}
      (hread : InputFiles.read path w₀ = .ok data) (hdata : data ≠ [])
      (hvariants : runs.map Run.variant = variants path data)
      (hruns : Runs plan path runs w₀ w₁) (hwalks : Walks plan paths reports w₁ w₂) :
      Walks plan (path :: paths) (.ofFile plan path runs :: reports) w₀ w₂

/-- Walks through files, one after the other, up to a run in which something fails. -/
inductive WalksBreakOff (plan : Plan) : List String → Failure → ω → ω → Prop
  | here {path : String} {data : Bytes} {w₀ w₁ : ω} {e : Failure} (paths : List String)
      (hread : InputFiles.read path w₀ = .ok data) (hdata : data ≠ [])
      (hbreak : BreaksOff plan path (variants path data) e w₀ w₁) :
      WalksBreakOff plan (path :: paths) e w₀ w₁
  | passedOver {path : String} {paths : List String} {w₀ w₁ : ω} {e : Failure}
      (hunusable : Unusable path w₀) (hbreak : WalksBreakOff plan paths e w₀ w₁) :
      WalksBreakOff plan (path :: paths) e w₀ w₁
  | walked {path : String} {data : Bytes} {paths : List String} {runs : List Run}
      {w₀ w₁ w₂ : ω} {e : Failure} (hread : InputFiles.read path w₀ = .ok data)
      (hdata : data ≠ []) (hvariants : runs.map Run.variant = variants path data)
      (hruns : Runs plan path runs w₀ w₁) (hbreak : WalksBreakOff plan paths e w₁ w₂) :
      WalksBreakOff plan (path :: paths) e w₀ w₂

/-- There is a walk through each of the files that are not passed over, or the walks break off. -/
theorem walks_or_breakOff (plan : Plan) (paths : List String) (w₀ : ω) :
    (∃ (reports : List Tally) (w₁ : ω), Walks plan paths reports w₀ w₁) ∨
      ∃ (e : Failure) (w₁ : ω), WalksBreakOff plan paths e w₀ w₁ := by
  induction paths generalizing w₀ with
  | nil => exact .inl ⟨[], w₀, .nil w₀⟩
  | cons path paths ih =>
    obtain hunusable | ⟨data, hread, hdata⟩ := unusable_or_read path w₀
    · obtain ⟨reports, w₁, hwalks⟩ | ⟨e, w₁, hbreak⟩ := ih w₀
      · exact .inl ⟨reports, w₁, .passedOver hunusable hwalks⟩
      · exact .inr ⟨e, w₁, .passedOver hunusable hbreak⟩
    obtain ⟨runs, w₁, hvariants, hruns⟩ | ⟨e, w₁, hbreak⟩ :=
      runs_or_breaksOff plan path (variants path data) w₀
    · obtain ⟨reports, w₂, hwalks⟩ | ⟨e, w₂, hbreak⟩ := ih w₁
      · exact .inl ⟨_, w₂, .walked hread hdata hvariants hruns hwalks⟩
      · exact .inr ⟨e, w₂, .walked hread hdata hvariants hruns hbreak⟩
    · exact .inr ⟨e, w₁, .here paths hread hdata hbreak⟩

end Relations

namespace Session

/-! ## The files of a folder -/

section InputFiles

variable {ω : Type} [InputFiles ω]

/-- The files that are walked through are those among the names that a folder has, -/
theorem perm_inputFiles (path : String) (names : List String) (world : ω) :
    (inputFiles path names world).Perm
      ((names.map (Path.join path)).filter (InputFiles.isFile · world)) :=
  List.mergeSort_perm _ _

theorem pairwise_mergeSort (texts : List String) : texts.mergeSort.Pairwise (· ≤ ·) := by
  have htrans : ∀ a b c : String, decide (a ≤ b) → decide (b ≤ c) → decide (a ≤ c) := by
    intro a b c hab hbc
    exact decide_eq_true (String.le_trans (of_decide_eq_true hab) (of_decide_eq_true hbc))
  have htotal : ∀ a b : String, decide (a ≤ b) || decide (b ≤ a) := by
    intro a b
    rw [Bool.or_eq_true, decide_eq_true_eq, decide_eq_true_eq]
    exact String.le_total a b
  exact (List.pairwise_mergeSort htrans htotal texts).imp of_decide_eq_true

/-- and they come in the order of their paths, -/
theorem pairwise_inputFiles (path : String) (names : List String) (world : ω) :
    (inputFiles path names world).Pairwise (· ≤ ·) :=
  pairwise_mergeSort _

/-- which is that of their names. -/
theorem inputFiles_eq (path : String) (names : List String) (world : ω) :
    inputFiles path names world =
      (names.mergeSort.map (Path.join path)).filter (InputFiles.isFile · world) := by
  have hsorted : ((names.mergeSort.map (Path.join path)).filter
      (InputFiles.isFile · world)).Pairwise (· ≤ ·) := by
    refine List.Pairwise.filter _ ?_
    exact (pairwise_mergeSort names).map _ fun _ _ => Path.join_le_join path
  refine List.Perm.eq_of_pairwise (fun _ _ _ _ => String.le_antisymm)
    (pairwise_inputFiles path names world) hsorted ?_
  refine (perm_inputFiles path names world).trans (List.Perm.filter _ ?_)
  exact (List.mergeSort_perm names _).symm.map _

end InputFiles

/-! ## What is done for files -/

section PassOver

variable {ω δ : Type} {run : EStateM Failure (Session ω δ) Unit} {s s' : Session ω δ}

theorem passOver_of_ok (h : run s = .ok () s') : passOver run s = .ok () s' := by
  rw [passOver, h]

theorem passOver_of_seed {error : SeedError} (h : run s = .error (.seed error) s') :
    passOver run s = .ok () s' := by
  rw [passOver, h]

theorem passOver_of_error {e : Failure} (h : run s = .error e s') (he : ∀ error, e ≠ .seed error) :
    passOver run s = .error e s' := by
  rw [passOver, h]
  cases e with
  | seed error => exact absurd rfl (he error)
  | _ => rfl

end PassOver

variable {ω δ : Type} [Target ω] [PayloadFiles ω] [InputFiles ω] [Storage δ] {plan : Plan}
  {s : Session ω δ} {path : String} {paths : List String} {world : ω}

/-- Walks through files are what is done for them. -/
theorem runFiles_of_walks {reports : List Tally} (hwalks : Walks plan paths reports s.world world) :
    ∃ store, runFiles plan paths s =
      .ok () { world, store, tally := s.tally.add (.sum reports) } := by
  induction paths generalizing s reports with
  | nil =>
    cases hwalks
    exact ⟨s.store, by rw [Tally.sum, List.foldr_nil, Tally.add_empty]; rfl⟩
  | cons path paths ih =>
    rw [runFiles]
    cases hwalks with
    | passedOver hunusable hwalks =>
      obtain ⟨error, hfile⟩ := runFile_of_unusable plan hunusable
      rw [bind_of_ok (passOver_of_seed hfile)]
      exact ih hwalks
    | walked hread hdata hvariants hruns hwalks =>
      obtain ⟨store₁, hfile⟩ := runFile_of_runs hread hdata hruns hvariants
      obtain ⟨store₂, hrest⟩ := ih (s := { world := _, store := store₁, tally := _ }) hwalks
      refine ⟨store₂, ?_⟩
      rw [bind_of_ok (passOver_of_ok hfile), hrest, Tally.add_assoc]
      rfl

/-- A failure in a walk ends the whole run. -/
theorem runFiles_of_breakOff {e : Failure} (hbreak : WalksBreakOff plan paths e s.world world) :
    ∃ s', s'.world = world ∧
      runFiles plan paths s = .error e s' := by
  induction paths generalizing s with
  | nil => cases hbreak
  | cons path paths ih =>
    rw [runFiles]
    cases hbreak with
    | here _ hread hdata hbreak =>
      obtain ⟨s', hworld, hfile⟩ := runFile_of_breaksOff hread hdata hbreak
      exact ⟨s', hworld, bind_of_error (passOver_of_error hfile hbreak.ne_seed)⟩
    | passedOver hunusable hbreak =>
      obtain ⟨error, hfile⟩ := runFile_of_unusable plan hunusable
      rw [bind_of_ok (passOver_of_seed hfile)]
      exact ih hbreak
    | walked hread hdata hvariants hruns hbreak =>
      obtain ⟨store, hfile⟩ := runFile_of_runs hread hdata hruns hvariants
      rw [bind_of_ok (passOver_of_ok hfile)]
      exact ih hbreak

/-! ## What is done for a folder -/

theorem runPath_of_folder (hfolder : InputFiles.isFolder path s.world) :
    runPath plan path s = runFolder plan path s :=
  if_pos hfolder

theorem runFolder_of_list {names : List String}
    (hlist : InputFiles.list path s.world = .ok names) :
    runFolder plan path s =
      runFiles plan (inputFiles path names s.world) s := by
  rw [runFolder, hlist]

theorem runFolder_of_unlisted {reason : String}
    (hlist : InputFiles.list path s.world = .error reason) :
    runFolder plan path s = .error (.listing path reason) s := by
  rw [runFolder, hlist]

end Session

end ScriptFuzz.FileFuzz
