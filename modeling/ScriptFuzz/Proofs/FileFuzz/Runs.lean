import ScriptFuzz.FileFuzz.Basic

/-!
# Runs on the variants of a file

What is done with the target and with the payload files, as relations between states of the world
outside, and what runs add to the totals.

- `Run.Done`: what is done in a run that nothing goes wrong in.
- `Stops`: what is done in a run in which something fails.
- `Runs`, `BreaksOff`: runs on one variant after the other, to the last one or up to a failure.
- `Tally.ofRuns`, `Tally.ofFile`, `Tally.sum`: the totals of runs, of a file and of several files.
- `runs_or_breaksOff`: either all runs are done, or they break off.
-/

namespace ScriptFuzz.FileFuzz

/-- How a run ended. -/
inductive RunEnding where
  /-- Not in time. -/
  | timedOut
  /-- In time, with a status if there is one. -/
  | ended (status : Option (Int × Ending))

/-- A run of the target on a variant of a file. -/
structure Run where
  /-- What the payload file held. -/
  payload : Bytes
  /-- What the variant is called. -/
  state : String
  /-- How the run ended. -/
  ending : RunEnding

namespace Run

/-- The variant that the target ran on. -/
def variant (r : Run) : Bytes × String := (r.payload, r.state)

/-- Whether the target did not end in time. -/
def timedOut (r : Run) : Bool :=
  match r.ending with
  | .timedOut => true
  | .ended _ => false

/-- What is judged. Of a run that is stopped nothing is, nor of one without a status. -/
def outcome (name : String) (r : Run) : Option Outcome :=
  match r.ending with
  | .ended (some (exitCode, ending)) =>
    some { template := name, state := r.state, input := r.payload, exitCode, ending }
  | _ => none

end Run

/-! ## Totals -/

namespace Tally

/-- The totals of two series of runs, one after the other. -/
def add (t u : Tally) : Tally where
  files := t.files + u.files
  executions := t.executions + u.executions
  timeouts := t.timeouts + u.timeouts
  findings := t.findings ++ u.findings

theorem add_empty (t : Tally) : t.add {} = t := by
  simp [add]

theorem add_assoc (t u v : Tally) : (t.add u).add v = t.add (u.add v) := by
  simp [add, Nat.add_assoc]

/-- The totals of runs. The oracle has its say on each run that is judged. -/
def ofRuns (plan : Plan) (name : String) (runs : List Run) : Tally where
  executions := runs.length
  timeouts := runs.countP Run.timedOut
  findings := (runs.filterMap fun r => (r.outcome name).bind plan.oracle).toArray

/-- The totals of the runs on a file. -/
def ofFile (plan : Plan) (name : String) (runs : List Run) : Tally :=
  { ofRuns plan name runs with files := 1 }

/-- The totals of several files. -/
def sum (reports : List Tally) : Tally := reports.foldr add {}

variable (plan : Plan) (name : String)

theorem ofRuns_append (runs runs' : List Run) :
    ofRuns plan name (runs ++ runs') = (ofRuns plan name runs).add (ofRuns plan name runs') := by
  simp [ofRuns, add]

end Tally

/-! ## What is done -/

section Relations

variable {ω : Type} [Target ω] [PayloadFiles ω]

/-- The payload file is made, and the target is started on it. -/
inductive Starts (plan : Plan) (name : String) (payload : Bytes) (path : String) : ω → ω → Prop
  | mk {w₀ w₁ w₂ : ω}
      (hcreate : PayloadFiles.create (suffix name) payload w₀ = (some path, w₁))
      (hlaunch : Target.launch (Target.setArguments (plan.arguments path) w₁).2 = .ok () w₂) :
      Starts plan name payload path w₀ w₂

/-- What is done in a run, from one state of the world to another. A target that does not end in
time is stopped, and its end is waited for once more. -/
inductive Run.Done (plan : Plan) (name : String) : Run → ω → ω → Prop
  | ended {payload : Bytes} {path : String} {w₀ w₁ w₂ : ω} (state : String)
      (hstart : Starts plan name payload path w₀ w₁)
      (hwait : Target.wait plan.timeout w₁ = .ok true w₂) :
      Done plan name ⟨payload, state, .ended (Target.status w₂)⟩ w₀ (PayloadFiles.remove path w₂).2
  | timedOut {payload : Bytes} {path : String} {w₀ w₁ w₂ w₃ w₄ : ω} {ended : Bool}
      (state : String) (hstart : Starts plan name payload path w₀ w₁)
      (hwait : Target.wait plan.timeout w₁ = .ok false w₂)
      (hterminate : Target.terminate w₂ = .ok () w₃)
      (hagain : Target.wait plan.timeout w₃ = .ok ended w₄) :
      Done plan name ⟨payload, state, .timedOut⟩ w₀ (PayloadFiles.remove path w₄).2

/-- What is done in a run in which something fails. Nothing is done after that, except that the
payload file is taken away. -/
inductive Stops (plan : Plan) (name : String) (payload : Bytes) : Failure → ω → ω → Prop
  | payload {w₀ w₁ : ω} (hcreate : PayloadFiles.create (suffix name) payload w₀ = (none, w₁)) :
      Stops plan name payload .payload w₀ w₁
  | launch {path : String} {w₀ w₁ w₂ : ω} {e : TargetError}
      (hcreate : PayloadFiles.create (suffix name) payload w₀ = (some path, w₁))
      (hlaunch : Target.launch (Target.setArguments (plan.arguments path) w₁).2 = .error e w₂) :
      Stops plan name payload (.target e) w₀ (PayloadFiles.remove path w₂).2
  | wait {path : String} {w₀ w₁ w₂ : ω} {e : TargetError}
      (hstart : Starts plan name payload path w₀ w₁)
      (hwait : Target.wait plan.timeout w₁ = .error e w₂) :
      Stops plan name payload (.target e) w₀ (PayloadFiles.remove path w₂).2
  | terminate {path : String} {w₀ w₁ w₂ w₃ : ω} {e : TargetError}
      (hstart : Starts plan name payload path w₀ w₁)
      (hwait : Target.wait plan.timeout w₁ = .ok false w₂)
      (hterminate : Target.terminate w₂ = .error e w₃) :
      Stops plan name payload (.target e) w₀ (PayloadFiles.remove path w₃).2
  | waitAgain {path : String} {w₀ w₁ w₂ w₃ w₄ : ω} {e : TargetError}
      (hstart : Starts plan name payload path w₀ w₁)
      (hwait : Target.wait plan.timeout w₁ = .ok false w₂)
      (hterminate : Target.terminate w₂ = .ok () w₃)
      (hagain : Target.wait plan.timeout w₃ = .error e w₄) :
      Stops plan name payload (.target e) w₀ (PayloadFiles.remove path w₄).2

/-- Runs one after the other. -/
inductive Runs (plan : Plan) (name : String) : List Run → ω → ω → Prop
  | nil (w : ω) : Runs plan name [] w w
  | cons {r : Run} {runs : List Run} {w₀ w₁ w₂ : ω} (hrun : r.Done plan name w₀ w₁)
      (hruns : Runs plan name runs w₁ w₂) : Runs plan name (r :: runs) w₀ w₂

/-- Runs on variants, one after the other, up to one in which something fails. -/
inductive BreaksOff (plan : Plan) (name : String) : List (Bytes × String) → Failure → ω → ω → Prop
  | here {payload : Bytes} {w₀ w₁ : ω} {e : Failure} (state : String)
      (variants : List (Bytes × String)) (hstop : Stops plan name payload e w₀ w₁) :
      BreaksOff plan name ((payload, state) :: variants) e w₀ w₁
  | later {r : Run} {variants : List (Bytes × String)} {w₀ w₁ w₂ : ω} {e : Failure}
      (hrun : r.Done plan name w₀ w₁) (hbreak : BreaksOff plan name variants e w₁ w₂) :
      BreaksOff plan name (r.variant :: variants) e w₀ w₂

/-- No run fails for want of something to walk through. -/
theorem BreaksOff.ne_seed {plan : Plan} {name : String} {left : List (Bytes × String)}
    {e : Failure} {w₀ w₁ : ω} (h : BreaksOff plan name left e w₀ w₁) (error : SeedError) :
    e ≠ .seed error := by
  induction h with
  | here state left hstop =>
    rintro rfl
    cases hstop
  | later _ _ ih => exact ih

/-- A run is done, or something fails in it. -/
theorem done_or_stops (plan : Plan) (name : String) (payload : Bytes) (state : String) (w₀ : ω) :
    (∃ (r : Run) (w₁ : ω), r.variant = (payload, state) ∧ r.Done plan name w₀ w₁) ∨
      ∃ (e : Failure) (w₁ : ω), Stops plan name payload e w₀ w₁ := by
  -- The first action that fails stops the run; behind the last one it is done.
  cases hcreate : PayloadFiles.create (suffix name) payload w₀ with
  | mk path? w₁ =>
  cases path? with
  | none => exact .inr ⟨_, _, .payload hcreate⟩
  | some path =>
  cases hlaunch : Target.launch (Target.setArguments (plan.arguments path) w₁).2 with
  | error e w₂ => exact .inr ⟨_, _, .launch hcreate hlaunch⟩
  | ok _ w₂ =>
  have hstart : Starts plan name payload path w₀ w₂ := ⟨hcreate, hlaunch⟩
  cases hwait : Target.wait plan.timeout w₂ with
  | error e w₃ => exact .inr ⟨_, _, .wait hstart hwait⟩
  | ok ended w₃ =>
  cases ended with
  | true => exact .inl ⟨_, _, rfl, .ended state hstart hwait⟩
  | false =>
  cases hterminate : Target.terminate w₃ with
  | error e w₄ => exact .inr ⟨_, _, .terminate hstart hwait hterminate⟩
  | ok _ w₄ =>
  cases hagain : Target.wait plan.timeout w₄ with
  | error e w₅ => exact .inr ⟨_, _, .waitAgain hstart hwait hterminate hagain⟩
  | ok ended w₅ => exact .inl ⟨_, _, rfl, .timedOut state hstart hwait hterminate hagain⟩

/-- There is a run on each of the variants, or the runs break off. -/
theorem runs_or_breaksOff (plan : Plan) (name : String) (variants : List (Bytes × String))
    (w₀ : ω) :
    (∃ (runs : List Run) (w₁ : ω), runs.map Run.variant = variants ∧ Runs plan name runs w₀ w₁) ∨
      ∃ (e : Failure) (w₁ : ω), BreaksOff plan name variants e w₀ w₁ := by
  induction variants generalizing w₀ with
  | nil => exact .inl ⟨[], w₀, rfl, .nil w₀⟩
  | cons variant variants ih =>
    obtain ⟨payload, state⟩ := variant
    obtain ⟨r, w₁, hvariant, hrun⟩ | ⟨e, w₁, hstop⟩ := done_or_stops plan name payload state w₀
    · rw [← hvariant]
      obtain ⟨runs, w₂, hvariants, hruns⟩ | ⟨e, w₂, hbreak⟩ := ih w₁
      · left
        exact ⟨r :: runs, w₂, by rw [List.map_cons, hvariants], .cons hrun hruns⟩
      · right
        exact ⟨e, w₂, .later hrun hbreak⟩
    · right
      exact ⟨e, w₁, .here state variants hstop⟩

end Relations

end ScriptFuzz.FileFuzz
