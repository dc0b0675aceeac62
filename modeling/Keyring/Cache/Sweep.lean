import Keyring.Cache

/-!
# Cache sweeps

A sweep removes, again and again, the entries of a cache that are too old: by the time since they
were put in, or by the time since they were last used. It runs once per period. Each run has two
steps: `begin` reads the clock and sets the next deadline, and `finish` removes what was too old at
the time read, so that other operations may come in between.

A run up to `tolerance` after its deadline keeps the schedule; after a later one the next deadline
is a whole period away.
-/

namespace Keyring

/-- What the age of an entry is measured from. -/
inductive Sweep.Policy where
  /-- The time it was put in. -/
  | created
  /-- The time it was last used. -/
  | unused
  deriving DecidableEq, Repr

/-- What a sweep is doing. -/
inductive Sweep.Phase where
  /-- Waiting for its next run. -/
  | waiting (deadline : Nat)
  /-- About to remove what was too old when it read the clock. -/
  | clearing (clock deadline : Nat)
  /-- Nothing any more, since the cache is gone. -/
  | ended
  /-- Nothing any more, since the clock cannot tell its next deadline. -/
  | failed
  deriving DecidableEq, Repr

/-- A sweep. -/
structure Sweep where
  /-- What it measures. -/
  policy : Sweep.Policy
  /-- The age from which it removes an entry. -/
  expiry : Nat
  /-- The time from run to run. -/
  period : Nat
  /-- Time passes between two runs. -/
  period_pos : 0 < period
  /-- What it is doing. -/
  phase : Sweep.Phase

namespace Sweep

/-- The shortest period of a sweep. -/
def minPeriod : Nat := Time.millisecond

/-- How late a run may be and still keep the schedule. -/
def tolerance : Nat := 5 * Time.millisecond

/-- How far away a deadline is that the clock cannot tell: about thirty years. -/
def farAway : Nat := 86400 * 365 * 30 * Time.second

/-- The age of an entry at a time. -/
def Policy.age (policy : Policy) (now : Nat) (e : Cache.Entry) : Nat :=
  match policy with
  | .created => now - e.createdAt
  | .unused => now - e.lastUsed

/-- The period of a sweep: the expiry for the first policy; half of it, and no less than the
shortest period, for the second. -/
def Policy.period (policy : Policy) (expiry : Nat) : Nat :=
  match policy with
  | .created => expiry
  | .unused => max (expiry / 2) minPeriod

theorem Policy.period_pos (policy : Policy) {expiry : Nat} (h : 0 < expiry) :
    0 < policy.period expiry := by
  cases policy
  · exact h
  · exact Nat.lt_of_lt_of_le (by decide : 0 < minPeriod) (Nat.le_max_right _ _)

/-- The phase that waits for a deadline; without one there is nothing to wait for. -/
def Phase.await : Option Nat → Phase
  | some deadline => .waiting deadline
  | none => .failed

/-- A sweep started at a time. An expiry of zero starts none. -/
def start? (policy : Policy) (now expiry : Nat) : Option Sweep :=
  if h : 0 < expiry then
    some ⟨policy, expiry, policy.period expiry, policy.period_pos h,
      .await (Time.after? now (policy.period expiry))⟩
  else none

/-- The deadline after a run at a time. -/
def next? (s : Sweep) (now deadline : Nat) : Option Nat :=
  (Time.after? deadline tolerance).bind fun late =>
    if late < now then Time.after? now s.period
    else (Time.after? deadline s.period).or (Time.after? now farAway)

/-- The time at which a waiting sweep runs. -/
def wake? (s : Sweep) : Option Nat :=
  match s.phase with
  | .waiting deadline => some (Time.roundUp deadline)
  | _ => none

/-- Whether a sweep will not run again. -/
def isOver (s : Sweep) : Bool :=
  match s.phase with
  | .ended | .failed => true
  | _ => false

/-- What a run that has read the clock goes on to, given the deadline after it. -/
def Phase.begun (now : Nat) (gone : Bool) : Option Nat → Phase
  | none => .failed
  | some next => if gone then .ended else .clearing now next

/-- Read the clock at the start of a run. The run of a sweep whose cache is gone is its last. -/
def begin (s : Sweep) (now : Nat) (gone : Bool) : Sweep :=
  match s.phase with
  | .waiting deadline => { s with phase := .begun now gone (s.next? now deadline) }
  | _ => s

/-- Remove what was too old when the clock was read. -/
def finish (s : Sweep) (c : Cache) : Sweep × Cache :=
  match s.phase with
  | .clearing clock deadline =>
    ({ s with phase := .waiting deadline }, c.retain fun e => s.policy.age clock e < s.expiry)
  | _ => (s, c)

/-- A whole run. -/
def run (s : Sweep) (now : Nat) (gone : Bool) (c : Cache) : Sweep × Cache :=
  (s.begin now gone).finish c

/-- How much of the time up to `t` a sweep has yet to run for. -/
def backlog (t : Nat) (s : Sweep) : Nat :=
  match s.phase with
  | .waiting deadline => t + 1 - deadline
  | _ => 0

theorem lt_of_next? {s : Sweep} {now deadline next : Nat} (h : s.next? now deadline = some next)
    (hle : deadline ≤ now) : deadline < next := by
  have hp := s.period_pos
  have hf : 0 < farAway := by decide
  obtain ⟨late, -, h⟩ := Option.bind_eq_some_iff.1 h
  split at h
  · have := Time.after?_eq_some h; omega
  · rcases Option.or_eq_some_iff.1 h with h | ⟨-, h⟩
    · have := Time.after?_eq_some h; omega
    · have := Time.after?_eq_some h; omega

/-- What a waiting sweep does after a run. -/
theorem phase_run {s : Sweep} {deadline : Nat} (h : s.phase = .waiting deadline) (now : Nat)
    (gone : Bool) (c : Cache) :
    (s.run now gone c).1.phase =
      match s.next? now deadline, gone with
      | none, _ => .failed
      | some _, true => .ended
      | some next, false => .waiting next := by
  simp only [run, begin, h]
  cases s.next? now deadline <;> cases gone <;> simp [finish, Phase.begun]

/-- A run reduces the backlog. -/
theorem backlog_run_lt {s : Sweep} {now t : Nat} {gone : Bool} {c : Cache} {wake : Nat}
    (hw : s.wake? = some wake) (hn : wake ≤ now) (ht : wake ≤ t) :
    ((s.run now gone c).1).backlog t < s.backlog t := by
  unfold wake? at hw
  split at hw
  · next deadline hp =>
    have hle := Time.le_roundUp deadline
    obtain rfl := Option.some.inj hw
    have hb : s.backlog t = t + 1 - deadline := by simp [backlog, hp]
    rw [hb, backlog, phase_run hp]
    cases hnext : s.next? now deadline with
    | none => show 0 < _; omega
    | some next =>
      have := lt_of_next? hnext (by omega)
      cases gone
      · show t + 1 - next < _; omega
      · show 0 < _; omega
  · cases hw

end Sweep

end Keyring
