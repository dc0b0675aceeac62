import Keyring.Proofs.Cache.Schedule
import Mathlib.Tactic.ByContra

/-!
# Ticks of a sweep

A sweep waits for its deadline, ticks, works out the next deadline and goes on to remove entries. It
fails if the clock cannot tell a sum that it needs, and it ends if the cache is gone. What a sweep
is about to remove entries from is not gone as long as it does, so another one that ticks meanwhile
goes on.

- `Sweep.Overflows`, `Sweep.next?_eq_none_iff`: the sums that a tick cannot do without;
- `Sweep.InReach`: the deadline of a sweep is at most a period away, and it has not failed while the
  clock has room;
- `SweptCache.isGone`, `SweptCache.tick`: a tick at its time;
- `Sweep.inReach_start?`, `Sweep.inReach_begin`, `Sweep.InReach.finish`: what each part of a sweep
  keeps.
-/

namespace Keyring

theorem Time.after?_eq_none_iff {start duration : Nat} :
    after? start duration = none ↔ limit ≤ start + duration := by
  unfold after?
  split <;> simp <;> omega

namespace Sweep

variable {s : Sweep} {c : Cache} {now later deadline next expiry : Nat} {policy : Policy}
  {gone : Bool}

/-- What a sweep is for: its policy, its expiry and its period. -/
def kind (s : Sweep) : Policy × Nat × Nat := (s.policy, s.expiry, s.period)

/-- Whether a sweep is about to remove entries. -/
def isClearing (s : Sweep) : Bool :=
  match s.phase with
  | .clearing _ _ => true
  | _ => false

/-- A tick needs an instant that the clock cannot tell: the end of its tolerance; or, if it is late,
the instant a period after it; or, if it is not, both the one a period after its deadline and the
one far away. -/
def Overflows (s : Sweep) (now deadline : Nat) : Prop :=
  Time.limit ≤ deadline + tolerance ∨
    (deadline + tolerance < now ∧ Time.limit ≤ now + s.period) ∨
      (now ≤ deadline + tolerance ∧ Time.limit ≤ deadline + s.period ∧ Time.limit ≤ now + farAway)

/-- These are all the ticks without a next deadline. -/
theorem next?_eq_none_iff : s.next? now deadline = none ↔ s.Overflows now deadline := by
  unfold next? Overflows
  rw [Option.bind_eq_none_iff]
  by_cases hroom : deadline + tolerance < Time.limit
  · rw [Time.after?_of_lt hroom]
    by_cases hlate : deadline + tolerance < now
    · simp [hlate, Time.after?_eq_none_iff, Nat.not_le.2 hroom, Nat.not_le.2 hlate]
    · simp [hlate, Time.after?_eq_none_iff, Nat.not_le.2 hroom, Nat.le_of_not_lt hlate]
  · have hnone : Time.after? deadline tolerance = none :=
      Time.after?_eq_none_iff.2 (Nat.le_of_not_lt hroom)
    simp [hnone, Nat.le_of_not_lt hroom]

/-- The next deadline is at most a period away. -/
theorem next?_le (h : s.next? now deadline = some next) (hdue : deadline ≤ now) :
    next ≤ now + s.period := by
  obtain ⟨late, hlate, hnext⟩ := Option.bind_eq_some_iff.1 h
  split at hnext
  · exact Nat.le_of_eq (Time.after?_eq_some hnext)
  · rcases Option.or_eq_some_iff.1 hnext with hnext | ⟨hnone, hnext⟩
    · rw [Time.after?_eq_some hnext]
      exact Nat.add_le_add_right hdue _
    · -- the clock can tell the instant far away, but not the one a period after the deadline
      have hroom : now + farAway < Time.limit := by
        by_contra hfull
        rw [Time.after?_eq_none_iff.2 (Nat.le_of_not_lt hfull)] at hnext
        cases hnext
      have hfull := Time.after?_eq_none_iff.1 hnone
      have hfar := Time.after?_eq_some hnext
      omega

/-- The deadline of a sweep is at most a period away, and one that has failed has no room for
another period. -/
def InReach (s : Sweep) (now : Nat) : Prop :=
  match s.phase with
  | .waiting deadline | .clearing _ deadline => deadline ≤ now + s.period
  | .ended => True
  | .failed => Time.limit ≤ now + s.period + tolerance

theorem InReach.mono (h : s.InReach now) (hle : now ≤ later) : s.InReach later := by
  unfold InReach at h ⊢
  split at h <;> first | trivial | omega

/-- A sweep that is started waits for its first deadline, or has failed for want of it. -/
theorem inReach_start? (h : start? policy now expiry = some s) : s.InReach now := by
  unfold start? at h
  split at h
  case isFalse => cases h
  case isTrue hexpiry =>
    obtain rfl := Option.some.inj h
    unfold InReach
    cases hfirst : Time.after? now (policy.period expiry) with
    | some deadline => exact Nat.le_of_eq (Time.after?_eq_some hfirst)
    | none =>
      have hfull := Time.after?_eq_none_iff.1 hfirst
      exact Nat.le_trans hfull (Nat.le_add_right _ _)

theorem phase_begin (h : s.phase = .waiting deadline) (now : Nat) (gone : Bool) :
    (s.begin now gone).phase = .begun now gone (s.next? now deadline) := by
  unfold begin
  -- the limit of the clock is not to be computed
  generalize s.next? now = next?
  rw [h]

theorem kind_begin (s : Sweep) (now : Nat) (gone : Bool) : (s.begin now gone).kind = s.kind := by
  unfold kind begin
  split <;> rfl

theorem kind_finish (s : Sweep) (c : Cache) : (s.finish c).1.kind = s.kind := by
  unfold kind finish
  split <;> rfl

/-- A tick at its time leads to a deadline that is at most a period away, or fails for want of
room. -/
theorem inReach_begin (hdue : s.phase = .waiting deadline)
    (hle : deadline ≤ now) (gone : Bool) : (s.begin now gone).InReach now := by
  have hperiod : (s.begin now gone).period = s.period :=
    congrArg (fun kind => kind.2.2) (s.kind_begin now gone)
  unfold InReach
  rw [phase_begin hdue, hperiod]
  cases hnext : s.next? now deadline with
  | none =>
    show Time.limit ≤ _
    by_contra hroom
    obtain ⟨next, hnext', -⟩ := exists_next? (Nat.lt_of_not_le hroom) hle
    cases hnext.symm.trans hnext'
  | some next =>
    cases gone with
    | true => trivial
    | false => exact next?_le hnext hle

theorem InReach.finish (h : s.InReach now) (c : Cache) : (s.finish c).1.InReach now := by
  unfold Sweep.finish
  split
  case h_1 clock deadline hclearing =>
    unfold InReach at h
    rw [hclearing] at h
    exact h
  case h_2 => exact h

/-- To remove entries never fails, and a sweep that is over does not come back. -/
theorem phase_finish (s : Sweep) (c : Cache) : (s.finish c).1.phase =
    match s.phase with
    | .clearing _ deadline => .waiting deadline
    | phase => phase := by
  unfold finish
  cases hphase : s.phase with
  | clearing clock deadline => rfl
  | waiting deadline => exact hphase
  | ended => exact hphase
  | failed => exact hphase

end Sweep

namespace SweptCache

variable {c : SweptCache} {i j : Nat} {s : Sweep} {deadline : Nat}

/-- Nobody holds the cache any more, not even a sweep that is about to remove entries from it. -/
def isGone (c : SweptCache) : Bool := c.dropped && c.sweeps.all fun s => !s.isClearing

/-- A sweep ticks, unless it is not yet its time. -/
def tick (c : SweptCache) (i : Nat) : SweptCache :=
  match c.sweeps[i]? with
  | none => c
  | some s =>
    match s.phase with
    | .waiting deadline =>
      if deadline ≤ c.now then { c with sweeps := c.sweeps.set i (s.begin c.now c.isGone) } else c
    | _ => c

theorem tick_of_due (hs : c.sweeps[i]? = some s) (hphase : s.phase = .waiting deadline)
    (hdue : deadline ≤ c.now) :
    c.tick i = { c with sweeps := c.sweeps.set i (s.begin c.now c.isGone) } := by
  simp only [tick, hs, hphase, hdue, if_pos]

/-- A tick is one of a sweep that is due, or changes nothing. -/
theorem tick_cases (c : SweptCache) (i : Nat) :
    c.tick i = c ∨ ∃ s deadline, c.sweeps[i]? = some s ∧ s.phase = .waiting deadline ∧
      deadline ≤ c.now ∧
        c.tick i = { c with sweeps := c.sweeps.set i (s.begin c.now c.isGone) } := by
  unfold tick
  split
  · exact .inl rfl
  case h_2 s hs =>
    split
    case h_1 deadline hphase =>
      split
      case isTrue hdue => exact .inr ⟨s, deadline, hs, hphase, hdue, rfl⟩
      case isFalse => exact .inl rfl
    case h_2 => exact .inl rfl

end SweptCache

end Keyring
