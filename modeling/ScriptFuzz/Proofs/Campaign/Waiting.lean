import ScriptFuzz.Campaign.Basic
import ScriptFuzz.Campaign.Rehearsal

/-!
# Waiting for a channel

A campaign waits for the channel of the target in rounds, and between them it looks at the clock.
The bound on the number of rounds is never what ends the waiting, as long as the clock does not
stand still while a channel is waited for in vain.

- `Campaign.awaitUntil_zero`, `Campaign.awaitUntil_succ`: a round, and what it leads to.
- `LawfulClock`: the clock goes on. That of a rehearsal does.
- `Campaign.awaitChannel_eq`: any greater bound gives the same.
- `Campaign.awaitUntil_loop`: so the waiting is a loop that only the channel, the target or the
  clock ends.
-/

namespace ScriptFuzz

/-- Worlds in which time passes while a channel is waited for in vain, and is never set back. -/
class LawfulClock (ω : Type) {χ : outParam Type} [Clock ω] [Target ω] [Listener ω χ] : Prop where
  /-- To wait in vain takes time. -/
  now_lt_accept : ∀ {timeout : Nat} {w w' : ω},
    Listener.accept timeout w = .ok (none : Option χ) w' → Clock.now w < Clock.now w'
  /-- To ask whether the target is running does not set the clock back. -/
  now_le_isAlive : ∀ w : ω, Clock.now w ≤ Clock.now (Target.isAlive w).2

instance : LawfulClock Rehearsal where
  now_lt_accept {timeout w w'} h := by
    change w.accept timeout = .ok none w' at h
    rw [Rehearsal.accept] at h
    dsimp only at h
    split at h
    · cases h
    split at h
    · cases h
      exact Nat.lt_add_of_pos_right (by decide)
    · cases h
  now_le_isAlive _ := Nat.le_refl _

namespace Campaign

variable {ω χ : Type} [Clock ω] [Target ω] [Listener ω χ]

theorem awaitUntil_zero (settings : Settings) (deadline : Nat) (w : ω) :
    awaitUntil settings deadline 0 w =
      match poll (χ := χ) settings w with
      | .error e w => .error e w
      | .ok found w => .ok found.1 w := by
  show EStateM.bind _ _ _ = _
  rw [EStateM.bind]
  cases poll (χ := χ) settings w with
  | error e w => rfl
  | ok found w => rfl

theorem awaitUntil_succ (settings : Settings) (deadline more : Nat) (w : ω) :
    awaitUntil settings deadline (more + 1) w =
      match poll (χ := χ) settings w with
      | .error e w => .error e w
      | .ok (some channel, _) w => .ok (some channel) w
      | .ok (none, true) w =>
        if deadline ≤ Clock.now w then .ok none w else awaitUntil settings deadline more w
      | .ok (none, false) w => .ok none w := by
  show EStateM.bind _ _ _ = _
  rw [EStateM.bind]
  cases poll (χ := χ) settings w with
  | error e w => rfl
  | ok found w =>
    obtain ⟨_ | channel, _ | _⟩ := found
    · rfl
    · show (if deadline ≤ Clock.now w then _ else _ : EStateM _ _ _) w = if _ then _ else _
      by_cases hnow : deadline ≤ Clock.now w
      · rw [if_pos hnow, if_pos hnow]
        rfl
      · rw [if_neg hnow, if_neg hnow]
    · rfl
    · rfl

variable [LawfulClock ω] (settings : Settings)

/-- A round in vain takes time. -/
theorem now_lt_poll {w w' : ω} {alive : Bool}
    (h : poll (χ := χ) settings w = .ok (none, alive) w') : Clock.now w < Clock.now w' := by
  rw [poll] at h
  cases haccept : Listener.accept (χ := χ) settings.pollInterval w with
  | error e v =>
    rw [haccept] at h
    cases h
  | ok channel v =>
    rw [haccept] at h
    cases channel with
    | some channel => cases h
    | none =>
      cases h
      exact Nat.lt_of_lt_of_le (LawfulClock.now_lt_accept haccept) (LawfulClock.now_le_isAlive v)

/-- With rounds for all the time that is left, a bound on their number is never reached. -/
theorem awaitUntil_eq {deadline more : Nat} {w : ω} (hmore : deadline ≤ Clock.now w + more)
    (extra : Nat) :
    awaitUntil settings deadline (more + extra) w = awaitUntil settings deadline more w := by
  induction more generalizing w with
  | zero =>
    cases extra with
    | zero => rfl
    | succ extra =>
      rw [Nat.zero_add, awaitUntil_succ, awaitUntil_zero]
      cases hpoll : poll (χ := χ) settings w with
      | error e w' => rfl
      | ok found w' =>
        obtain ⟨_ | channel, _ | _⟩ := found
        · rfl
        · -- the deadline has passed in this round
          have hlt := now_lt_poll settings hpoll
          have hdeadline : deadline ≤ Clock.now w' := by omega
          exact if_pos hdeadline
        · rfl
        · rfl
  | succ more ih =>
    rw [Nat.add_right_comm, awaitUntil_succ, awaitUntil_succ]
    cases hpoll : poll (χ := χ) settings w with
    | error e w' => rfl
    | ok found w' =>
      obtain ⟨_ | channel, _ | _⟩ := found
      · rfl
      · have hlt := now_lt_poll settings hpoll
        have hrest : awaitUntil settings deadline (more + extra) w' = _ := ih (by omega)
        dsimp only
        rw [hrest]
      · rfl
      · rfl

/-- A greater bound on the number of rounds does not change what comes of the waiting. -/
theorem awaitChannel_eq (w : ω) {more : Nat} (hmore : settings.patience ≤ more) :
    awaitChannel settings w =
      awaitUntil settings (Clock.now w + settings.patience) more w := by
  obtain ⟨extra, rfl⟩ := Nat.exists_eq_add_of_le hmore
  exact (awaitUntil_eq settings (Nat.le_refl _) extra).symm

/-- Each round of the waiting is as the first: there is no other end to it than the channel, the end
of the target, a failure, or the deadline. -/
theorem awaitUntil_loop {deadline more : Nat} {w : ω} (hmore : deadline ≤ Clock.now w + more) :
    awaitUntil settings deadline more w =
      match poll (χ := χ) settings w with
      | .error e w => .error e w
      | .ok (some channel, _) w => .ok (some channel) w
      | .ok (none, true) w =>
        if deadline ≤ Clock.now w then .ok none w else awaitUntil settings deadline more w
      | .ok (none, false) w => .ok none w := by
  rw [← awaitUntil_eq settings hmore 1, awaitUntil_succ]

end Campaign

end ScriptFuzz
