/-!
# Fair locks

A lock that many may hold for reading or one for writing. Requests are served in the order in which
they came: a request waits while it does not agree with the holders or another request waits
before it, so readers that come after a waiting writer wait behind it.
-/

namespace Keyring

/-- How a lock is held. -/
inductive LockMode where
  /-- Together with others. -/
  | shared
  /-- Alone. -/
  | exclusive
  deriving DecidableEq, Repr

/-- A fair lock: who holds it and who waits for it, by number. -/
structure FairLock where
  /-- The holders. -/
  holders : List (Nat × LockMode)
  /-- The waiting requests, the first to come first. -/
  queue : List (Nat × LockMode)
  deriving DecidableEq, Repr

namespace FairLock

/-- A lock that nobody holds. -/
def idle : FairLock := ⟨[], []⟩

instance : Inhabited FairLock := ⟨idle⟩

/-- Whether one more holder agrees with the holders. -/
def admits (holders : List (Nat × LockMode)) : LockMode → Bool
  | .shared => holders.all fun h => h.2 = .shared
  | .exclusive => holders.isEmpty

/-- Serve waiting requests in order, as long as they agree with the holders. -/
def serve (holders : List (Nat × LockMode)) : List (Nat × LockMode) → FairLock
  | [] => ⟨holders, []⟩
  | request :: queue =>
    if admits holders request.2 then serve (holders ++ [request]) queue
    else ⟨holders, request :: queue⟩

/-- Ask for the lock. -/
def request (l : FairLock) (id : Nat) (mode : LockMode) : FairLock :=
  serve l.holders (l.queue ++ [(id, mode)])

/-- Give the lock back, or give up waiting for it. -/
def leave (l : FairLock) (id : Nat) : FairLock :=
  serve (l.holders.filter fun h => h.1 ≠ id) (l.queue.filter fun r => r.1 ≠ id)

/-- Whether a number holds the lock. -/
def isHeldBy (l : FairLock) (id : Nat) : Bool := l.holders.any fun h => h.1 = id

end FairLock

end Keyring
