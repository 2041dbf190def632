import ScriptFuzz.Proofs.FileFuzz.Attempts
import ScriptFuzz.Proofs.FileFuzz.Variants

/-!
# Walks with the target

A walk is reset, and then the target is run on each of its states. So it is run on the variants of
the file, in their order, until they are used up or something fails.

- `Session.runFrom_of_runs`, `Session.runFrom_of_breaksOff`: from any state of a walk on.
- `Session.runWalk_of_runs`, `Session.runWalk_of_breaksOff`: from the first state on.
- `Session.runFile_of_runs`, `Session.runFile_of_breaksOff`: the same for a file.
-/

namespace ScriptFuzz.FileFuzz.Session

open FileWalk (variants)

variable {ω δ : Type} [Target ω] [PayloadFiles ω] [Storage δ] {plan : Plan} {w : FileWalk}

/-- As long as variants are left a walk shows the next one. -/
theorem drop_variants {k : Nat} {variant : Bytes × String} {left : List (Bytes × String)}
    (hleft : variant :: left = (variants w.name w.data).drop k) :
    k < 2 * w.data.length ∧ variant = ((w.state k).bytes, (w.state k).describe) ∧
      left = (variants w.name w.data).drop (k + 1) := by
  have hk : k < 2 * w.data.length := by
    have hlength := congrArg List.length hleft
    rw [List.length_drop, FileWalk.length_variants, List.length_cons] at hlength
    omega
  have hget := FileWalk.getElem?_variants hk
  rw [← List.head?_drop, ← hleft] at hget
  refine ⟨hk, Option.some.inj hget, ?_⟩
  rw [← List.drop_drop, ← hleft, List.drop_one, List.tail_cons]

/-- Behind a run that is done the walk moves, and the target is run again unless it is over. -/
theorem runFrom_of_ok {v : FileWalk} (h : v.InFile) {s s' : Session ω δ}
    (hattempt : attempt plan v s = .ok () s') :
    runFrom plan v h s =
      if v.next.finished then (v.next, .ok () s') else runFrom plan v.next h.next s' := by
  rw [runFrom, hattempt]
  dsimp only
  rw [FileWalk.mutate_fst, Bool.not_not, Bool.or_self]
  split <;> rfl

theorem runFrom_of_error {v : FileWalk} (h : v.InFile) {s s' : Session ω δ} {e : Failure}
    (hattempt : attempt plan v s = .error e s') : runFrom plan v h s = (v, .error e s') := by
  rw [runFrom, hattempt]

/-- Runs on the variants from a state of a walk on are what is done from that state on, and then the
walk is over. -/
theorem runFrom_of_runs {v : FileWalk} {runs : List Run} {k : Nat} {s : Session ω δ} {world : ω}
    (hv : v = w.state k) (h : v.InFile) (hk : k < 2 * w.data.length)
    (hruns : Runs plan w.name runs s.world world)
    (hvariants : runs.map Run.variant = (variants w.name w.data).drop k) :
    ∃ store, runFrom plan v h s =
      (w.state (2 * w.data.length),
        .ok () { world, store, tally := s.tally.add (.ofRuns plan w.name runs) }) := by
  -- By induction on the runs: each of them takes the walk to its next state.
  induction runs generalizing v k s with
  | nil =>
    have hlength := congrArg List.length hvariants
    rw [List.length_drop, FileWalk.length_variants] at hlength
    exact absurd hk (Nat.not_lt.2 (Nat.le_of_sub_eq_zero hlength.symm))
  | cons r runs ih =>
    obtain _ | ⟨hrun, hruns⟩ := hruns
    obtain ⟨-, hvariant, hvariants⟩ := drop_variants hvariants
    rw [← hv] at hvariant
    rw [← FileWalk.name_state w k, ← hv] at hrun
    obtain ⟨store₁, hattempt⟩ := attempt_of_done hrun hvariant
    have hnext : v.next = w.state (k + 1) := by rw [hv, FileWalk.next_state hk]
    have hfinished : v.next.finished = decide (2 * w.data.length ≤ k + 1) := by
      rw [hnext, FileWalk.finished_state]
    rw [runFrom_of_ok h hattempt, hfinished]
    by_cases hlast : 2 * w.data.length ≤ k + 1
    · -- it was the last variant
      obtain rfl : runs = [] := by
        rw [List.drop_eq_nil_of_le (by rwa [FileWalk.length_variants])] at hvariants
        exact List.map_eq_nil_iff.1 hvariants
      cases hruns
      rw [if_pos (decide_eq_true hlast), hnext, Nat.le_antisymm hlast hk, hv, FileWalk.name_state]
      exact ⟨store₁, rfl⟩
    · rw [if_neg (by simpa using hlast)]
      obtain ⟨store₂, hrest⟩ := ih (s := { world := _, store := store₁, tally := _ }) hnext h.next
        (Nat.lt_of_not_le hlast) hruns hvariants
      refine ⟨store₂, ?_⟩
      rw [hrest, hv, FileWalk.name_state, Tally.add_assoc, ← Tally.ofRuns_append,
        List.singleton_append]

/-- A failure in a run ends it all. -/
theorem runFrom_of_breaksOff {v : FileWalk} {left : List (Bytes × String)} {k : Nat} {e : Failure}
    {s : Session ω δ} {world : ω} (hv : v = w.state k) (h : v.InFile)
    (hleft : left = (variants w.name w.data).drop k)
    (hbreak : BreaksOff plan w.name left e s.world world) :
    ∃ s', s'.world = world ∧ (runFrom plan v h s).2 = .error e s' := by
  -- By induction on the variants left: what is in front of the failure is done as above.
  induction left generalizing v k s with
  | nil => cases hbreak
  | cons variant left ih =>
    obtain ⟨hk, hvariant, hbehind⟩ := drop_variants hleft
    rw [← hv] at hvariant
    cases hbreak with
    | here state left hstop =>
      rw [(Prod.mk.inj hvariant).1, ← FileWalk.name_state w k, ← hv] at hstop
      obtain ⟨tally, hattempt⟩ := attempt_of_stops hstop
      rw [runFrom_of_error h hattempt]
      exact ⟨_, rfl, rfl⟩
    | later hrun hbreak =>
      rw [← FileWalk.name_state w k, ← hv] at hrun
      obtain ⟨store, hattempt⟩ := attempt_of_done hrun hvariant
      have hnext : v.next = w.state (k + 1) := by rw [hv, FileWalk.next_state hk]
      -- there is a variant behind this one, in which something fails
      have hmore : ¬2 * w.data.length ≤ k + 1 := by
        intro hlast
        rw [List.drop_eq_nil_of_le (by rwa [FileWalk.length_variants])] at hbehind
        subst hbehind
        cases hbreak
      have hfinished : v.next.finished = false := by
        rw [hnext, FileWalk.finished_state, decide_eq_false hmore]
      rw [runFrom_of_ok h hattempt, if_neg (ne_true_of_eq_false hfinished)]
      exact ih hnext h.next hbehind hbreak

variable {s : Session ω δ} {world : ω}

/-- Runs on all variants of a file are what is done in a walk through it, in whichever state the
walk was before. Afterwards it is over. -/
theorem runWalk_of_runs {runs : List Run} (hdata : w.data ≠ [])
    (hruns : Runs plan w.name runs s.world world)
    (hvariants : runs.map Run.variant = variants w.name w.data) :
    ∃ store, runWalk plan w hdata s =
      ({ w with phase := .done, offset := w.data.length },
        .ok () { world, store, tally := s.tally.add (.ofFile plan w.name runs) }) := by
  have hpos := List.length_pos_iff.2 hdata
  rw [runWalk, ← FileWalk.state_done]
  exact runFrom_of_runs (k := 0) (s := { s with tally.files := s.tally.files + 1 })
    (FileWalk.state_zero hdata).symm _ (by omega) hruns hvariants

/-- A failure in a run of a walk ends the walk. -/
theorem runWalk_of_breaksOff {e : Failure} (hdata : w.data ≠ [])
    (hbreak : BreaksOff plan w.name (variants w.name w.data) e s.world world) :
    ∃ s', s'.world = world ∧ (runWalk plan w hdata s).2 = .error e s' :=
  runFrom_of_breaksOff (k := 0) (s := { s with tally.files := s.tally.files + 1 })
    (FileWalk.state_zero hdata).symm _ rfl hbreak

variable [InputFiles ω] {path : String} {data : Bytes}

/-- A file that can be read and is not empty is walked through. -/
theorem runFile_eq (plan : Plan) (s : Session ω δ)
    (hread : InputFiles.read path s.world = .ok data) (hdata : data ≠ []) :
    runFile plan path s = (runWalk plan { name := path, data } hdata s).2 := by
  have hstart : FileWalk.start? path data = some { name := path, data } :=
    if_neg fun h => hdata (List.isEmpty_iff.1 h)
  rw [runFile, hread]
  dsimp only
  split
  · next h =>
    rw [hstart] at h
    cases h
  · next w h =>
    cases hstart.symm.trans h
    rfl

/-- A file that cannot be read, or that is empty, is reported. -/
theorem runFile_of_unusable (plan : Plan)
    (h : ∀ data, InputFiles.read path s.world = .ok data → data = []) :
    ∃ error, runFile plan path s = .error (.seed error) s := by
  rw [runFile]
  cases hread : InputFiles.read path s.world with
  | error reason => exact ⟨_, rfl⟩
  | ok data =>
    obtain rfl := h data hread
    exact ⟨.empty path, rfl⟩

theorem runFile_of_runs {runs : List Run} (hread : InputFiles.read path s.world = .ok data)
    (hdata : data ≠ []) (hruns : Runs plan path runs s.world world)
    (hvariants : runs.map Run.variant = variants path data) :
    ∃ store, runFile plan path s =
      .ok () { world, store, tally := s.tally.add (.ofFile plan path runs) } := by
  obtain ⟨store, hwalk⟩ := runWalk_of_runs (w := { name := path, data }) hdata hruns hvariants
  rw [runFile_eq plan s hread hdata, hwalk]
  exact ⟨store, rfl⟩

theorem runFile_of_breaksOff {e : Failure} (hread : InputFiles.read path s.world = .ok data)
    (hdata : data ≠ []) (hbreak : BreaksOff plan path (variants path data) e s.world world) :
    ∃ s', s'.world = world ∧ runFile plan path s = .error e s' := by
  rw [runFile_eq plan s hread hdata]
  exact runWalk_of_breaksOff (w := { name := path, data }) hdata hbreak

end ScriptFuzz.FileFuzz.Session
