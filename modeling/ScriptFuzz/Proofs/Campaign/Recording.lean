import ScriptFuzz.Proofs.Campaign.Waiting

/-!
# Records of campaigns

A campaign can be watched from outside, in a world that writes down what is done with the target and
its channel, and otherwise is the world that it stands for. Any world can be recorded in this way,
and the campaign does not notice.

- `Deed`: what can be done.
- `Recorded`: a world, and what has been done with it.
- `Campaign.awaitChannel_recorded`: what is recorded while a channel is waited for.
-/

namespace ScriptFuzz

/-- Something that is done with the target or its channel. To look at the clock or at the status of
the target is none. -/
inductive Deed (χ : Type) where
  /-- The target is started, or does not start. -/
  | launch (started : Bool)
  /-- The channel of the target is waited for. There is none if none comes or waiting fails. -/
  | accept (channel : Option χ)
  /-- The target is asked whether it is running. -/
  | isAlive (answer : Bool)
  /-- A channel is given up. -/
  | hangUp (channel : χ)
  /-- The target is stopped, or cannot be stopped. -/
  | terminate (succeeded : Bool)
  /-- The end of the target is waited for, whether it comes or not. The target then has the given
  status. -/
  | wait (status : Option (Int × Ending))
  /-- The target gets its arguments. -/
  | setArguments (text : String)

/-- The deeds of one who waits for a channel that does not come. -/
def Deed.isWaiting {χ : Type} : Deed χ → Bool
  | accept none | isAlive _ => true
  | _ => false

/-- A world and what has been done with it. -/
structure Recorded (ω χ : Type) where
  /-- The world. -/
  world : ω
  /-- The deeds so far. -/
  log : List (Deed χ)

namespace Recorded

variable {ω χ ε α : Type}

/-- Carries out an action and records it as the deed that its result and the world afterwards show
it to be. -/
def recording (deed : Except ε α → ω → Deed χ) (action : EStateM ε ω α) :
    EStateM ε (Recorded ω χ) α := fun r =>
  match action r.world with
  | .ok a world => .ok a { world, log := r.log ++ [deed (.ok a) world] }
  | .error e world => .error e { world, log := r.log ++ [deed (.error e) world] }

/-- The channel that came of waiting for it. -/
def accepted : Except ε (Option χ) → Option χ
  | .ok channel => channel
  | .error _ => none

instance [Target ω] : Target (Recorded ω χ) where
  launch := recording (fun result _ => .launch result.isOk) Target.launch
  terminate := recording (fun result _ => .terminate result.isOk) Target.terminate
  wait timeout := recording (fun _ world => .wait (Target.status world)) (Target.wait timeout)
  isAlive := fun r =>
    let (answer, world) := Target.isAlive r.world
    (answer, { world, log := r.log ++ [.isAlive answer] })
  status r := Target.status r.world
  setArguments text := fun r =>
    let (_, world) := Target.setArguments text r.world
    ((), { world, log := r.log ++ [.setArguments text] })

instance [Clock ω] : Clock (Recorded ω χ) where
  now r := Clock.now r.world

instance [Listener ω χ] : Listener (Recorded ω χ) χ where
  accept timeout := recording (fun result _ => .accept (accepted result)) (Listener.accept timeout)
  hangUp channel := fun r =>
    let (_, world) := Listener.hangUp channel r.world
    ((), { world, log := r.log ++ [.hangUp channel] })

section

variable {deed : Except ε α → ω → Deed χ} {action : EStateM ε ω α} {w w' : ω}

theorem recording_ok {a : α} (h : action w = .ok a w') (log : List (Deed χ)) :
    recording deed action { world := w, log } =
      .ok a { world := w', log := log ++ [deed (.ok a) w'] } := by
  simp only [recording, h]

theorem recording_error {e : ε} (h : action w = .error e w') (log : List (Deed χ)) :
    recording deed action { world := w, log } =
      .error e { world := w', log := log ++ [deed (.error e) w'] } := by
  simp only [recording, h]

end

end Recorded

/-! ## Waiting for a channel -/

namespace Campaign

variable {ω χ ε α : Type}

/-- The deed by which a channel comes, if it comes. -/
def arrival : Option χ → List (Deed χ)
  | some channel => [.accept (some channel)]
  | none => []

/-- The result of waiting in a recorded world. The channel, if it comes, comes last. -/
def awaited (channel : α → Option χ) (log : List (Deed χ)) :
    EStateM.Result ε ω α → EStateM.Result ε (Recorded ω χ) α
  | .ok a world => .ok a { world, log := log ++ arrival (channel a) }
  | .error e world => .error e { world, log }

variable [Target ω] [Listener ω χ]

/-- A look for the channel is recorded as an arrival, or else as waiting. -/
theorem poll_recorded (settings : Settings) (w : ω) (log : List (Deed χ)) :
    ∃ waits : List (Deed χ), (∀ deed ∈ waits, deed.isWaiting) ∧
      poll settings (Recorded.mk w log) = awaited Prod.fst (log ++ waits) (poll settings w) := by
  rw [poll, poll]
  cases h : Listener.accept (χ := χ) settings.pollInterval w with
  | error e w' =>
    have hr : Listener.accept settings.pollInterval (Recorded.mk w log) = .error e _ :=
      Recorded.recording_error h log
    refine ⟨[.accept none], by simp [Deed.isWaiting], ?_⟩
    rw [hr]
    rfl
  | ok channel w' =>
    have hr : Listener.accept settings.pollInterval (Recorded.mk w log) = .ok channel _ :=
      Recorded.recording_ok h log
    rw [hr]
    cases channel with
    | some channel =>
      refine ⟨[], by simp, ?_⟩
      rw [List.append_nil]
      rfl
    | none =>
      refine ⟨[.accept none, .isAlive (Target.isAlive w').1], by simp [Deed.isWaiting], ?_⟩
      have hlog : ∀ alive : Bool, (log ++ [.accept none]) ++ [.isAlive alive] =
          log ++ [.accept none, .isAlive alive] ++ arrival (χ := χ) none := by
        intro alive
        rw [arrival, List.append_nil, List.append_assoc]
        rfl
      show EStateM.Result.ok _ _ = .ok _ (Recorded.mk _ _)
      rw [← hlog]
      rfl

variable [Clock ω]

/-- While a channel is waited for nothing else is done, and if it comes, that is the last that is
done. -/
theorem awaitUntil_recorded (settings : Settings) (deadline more : Nat) (w : ω)
    (log : List (Deed χ)) :
    ∃ waits : List (Deed χ), (∀ deed ∈ waits, deed.isWaiting) ∧
      awaitUntil settings deadline more (Recorded.mk w log) =
        awaited id (log ++ waits) (awaitUntil settings deadline more w) := by
  induction more generalizing w log with
  | zero =>
    obtain ⟨waits, hwaits, hpoll⟩ := poll_recorded settings w log
    refine ⟨waits, hwaits, ?_⟩
    rw [awaitUntil_zero, awaitUntil_zero, hpoll]
    cases poll settings w with
    | ok a w => rfl
    | error e w => rfl
  | succ more ih =>
    obtain ⟨waits, hwaits, hpoll⟩ := poll_recorded settings w log
    rw [awaitUntil_succ, awaitUntil_succ, hpoll]
    cases poll settings w with
    | error e w' => exact ⟨waits, hwaits, rfl⟩
    | ok found w' =>
      obtain ⟨_ | channel, _ | _⟩ := found
      · exact ⟨waits, hwaits, rfl⟩
      · -- neither the channel nor the end of the target has come
        by_cases hnow : deadline ≤ Clock.now w'
        · refine ⟨waits, hwaits, ?_⟩
          show (if deadline ≤ Clock.now w' then _ else _) = awaited id _ (if _ then _ else _)
          rw [if_pos hnow, if_pos hnow]
          rfl
        · obtain ⟨later, hlater, hrest⟩ := ih w' (log ++ waits)
          refine ⟨waits ++ later, List.forall_mem_append.2 ⟨hwaits, hlater⟩, ?_⟩
          show (if deadline ≤ Clock.now w' then _ else
              awaitUntil settings deadline more (Recorded.mk w' (log ++ waits ++ []))) =
            awaited id _ (if _ then _ else _)
          rw [if_neg hnow, if_neg hnow, List.append_nil, hrest, List.append_assoc]
      · exact ⟨waits, hwaits, rfl⟩
      · exact ⟨waits, hwaits, rfl⟩

theorem awaitChannel_recorded (settings : Settings) (w : ω) (log : List (Deed χ)) :
    ∃ waits : List (Deed χ), (∀ deed ∈ waits, deed.isWaiting) ∧
      awaitChannel settings (Recorded.mk w log) =
        awaited id (log ++ waits) (awaitChannel settings w) :=
  awaitUntil_recorded settings _ _ w log

end Campaign

end ScriptFuzz
