/-!
# Time

Instants and durations are natural numbers of nanoseconds; an instant counts from the start of the
clock. The clock can tell instants up to a limit of signed 64-bit seconds. Timers fire at whole
milliseconds.
-/

namespace Keyring.Time

/-- A millisecond. -/
def millisecond : Nat := Nat.pow 10 6

/-- A second. -/
def second : Nat := Nat.pow 10 9

/-- The first instant that the clock cannot tell. -/
def limit : Nat := Nat.pow 2 63 * second

/-- The instant a duration after another one, if the clock can tell it. -/
@[irreducible] def after? (start duration : Nat) : Option Nat :=
  if start + duration < limit then some (start + duration) else none

/-- The first whole millisecond from an instant on. -/
def roundUp (t : Nat) : Nat := (t + (millisecond - 1)) / millisecond * millisecond

theorem after?_eq_some {start duration t : Nat} (h : after? start duration = some t) :
    t = start + duration := by
  unfold after? at h
  split at h
  · exact (Option.some.inj h).symm
  · cases h

theorem le_roundUp (t : Nat) : t ≤ roundUp t := by
  have hmillisecond : millisecond = 1000000 := rfl
  rw [roundUp, hmillisecond]
  omega

end Keyring.Time
