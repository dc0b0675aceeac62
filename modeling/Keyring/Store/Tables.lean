import Keyring.Store.Step

/-!
# Shared tables on several threads

The cache and the records of a store in memory are tables that all names share, and each has a lock.
Where a store runs on several threads, a step that uses a table has three parts: it asks for the
lock of the table, makes its access once it holds the lock, and gives the lock back. In between
other calls and sweeps go on, and may find the lock held.

`Store.step` is a step with all its parts. `Threads.turn` makes one part of it.
-/

namespace Keyring.Store

/-- A table that all names share. -/
inductive Table where
  /-- The cache. -/
  | cache
  /-- The records of a store in memory. -/
  | records
  deriving DecidableEq, Repr

/-- The table that some work uses, and how its lock is held. Files have no table. -/
def Work.access? (backend : Backend) : Work → Option (Table × LockMode)
  | .cacheCreated _ | .cacheRead _ | .purge _ => some (.cache, .exclusive)
  | .insert _ _ => some (.records, .exclusive)
  | .read =>
    match backend with
    | .memory => some (.records, .shared)
    | .files _ => none
  | .remove =>
    match backend with
    | .memory => some (.records, .exclusive)
    | .files _ => none
  | _ => none

/-- The table that the next step of a call uses, and how its lock is held. Looking a name up in the
cache counts as use of it, so it takes the lock alone. -/
def Stage.access? (backend : Backend) : Stage → Option (Table × LockMode)
  | .lookUpNew _ | .lookUp => some (.cache, .exclusive)
  | .work w => w.access? backend
  | _ => none

/-- Somebody who uses the tables. -/
inductive Actor where
  /-- A call, by its number. -/
  | call (id : Nat)
  /-- A sweep of the cache, by its place among the sweeps. -/
  | sweep (i : Nat)
  deriving DecidableEq, Repr

/-- The number under which somebody uses the locks of the tables. -/
def Actor.number : Actor → Nat
  | .call id => 2 * id
  | .sweep i => 2 * i + 1

/-- The table that somebody uses next, and how its lock is held: a sweep that has read the clock
removes entries from the cache. -/
def Actor.access? (s : Store) : Actor → Option (Table × LockMode)
  | .call id => (s.stage? id).bind (Stage.access? s.settings.backend)
  | .sweep i =>
    match (s.cache.sweeps[i]?).map Sweep.phase with
    | some (.clearing _ _) => some (.cache, .exclusive)
    | _ => none

/-- What somebody does next, all at once. -/
def Actor.act (s : Store) (reply : Reply) : Actor → Store
  | .call id => s.step id reply
  | .sweep i => { s with cache := s.cache.finishSweep i }

/-- How far somebody is with the use of a table. -/
structure Access where
  /-- The table. -/
  table : Table
  /-- Whether what is to be done in the table is done; otherwise its lock was asked for. -/
  made : Bool
  deriving DecidableEq, Repr

/-- The locks of the tables. -/
structure TableLocks where
  /-- The lock of the cache. -/
  cache : FairLock
  /-- The lock of the records. -/
  records : FairLock
  /-- How far those are that use a table, by their numbers. -/
  accesses : FiniteMap Nat Access

namespace TableLocks

/-- Nobody uses a table. -/
def idle : TableLocks := ⟨.idle, .idle, .empty⟩

/-- The lock of a table. -/
def lock (l : TableLocks) : Table → FairLock
  | .cache => l.cache
  | .records => l.records

/-- Put a lock in the place of that of a table. -/
def setLock (l : TableLocks) (table : Table) (lock : FairLock) : TableLocks :=
  match table with
  | .cache => { l with cache := lock }
  | .records => { l with records := lock }

/-- How far somebody is with the use of a table. -/
def access? (l : TableLocks) (a : Actor) : Option Access := l.accesses.find? a.number

/-- Ask for the lock of a table. -/
def ask (l : TableLocks) (a : Actor) (table : Table) (mode : LockMode) : TableLocks :=
  { l.setLock table ((l.lock table).request a.number mode) with
    accesses := l.accesses.insert a.number ⟨table, false⟩ }

/-- Note that the access to a table is made. -/
def mark (l : TableLocks) (a : Actor) (table : Table) : TableLocks :=
  { l with accesses := l.accesses.insert a.number ⟨table, true⟩ }

/-- Give the lock of a table back, or give up waiting for it. -/
def leave (l : TableLocks) (a : Actor) : TableLocks :=
  match l.access? a with
  | none => l
  | some access =>
    { l.setLock access.table ((l.lock access.table).leave a.number) with
      accesses := l.accesses.erase a.number }

end TableLocks

/-- A store whose calls and sweeps run on several threads. -/
structure Threads where
  /-- The store. -/
  store : Store
  /-- The locks of its tables. -/
  tables : TableLocks

namespace Threads

/-- A store that nobody uses yet. -/
def start (s : Store) : Threads := ⟨s, .idle⟩

/-- Let somebody make the next part of its step. Who has asked for the lock of a table waits until
it holds the lock. -/
def turn (t : Threads) (a : Actor) (reply : Reply) : Threads :=
  match t.tables.access? a with
  | some ⟨_, true⟩ => { t with tables := t.tables.leave a }
  | some ⟨table, false⟩ =>
    if (t.tables.lock table).isHeldBy a.number then
      ⟨a.act t.store reply, t.tables.mark a table⟩
    else t
  | none =>
    match a.access? t.store with
    | some (table, mode) => { t with tables := t.tables.ask a table mode }
    | none => { t with store := a.act t.store reply }

/-- Give up a call wherever it is; the locks that it had or waited for are free of it. -/
def abandon (t : Threads) (id : Nat) : Threads :=
  ⟨t.store.abandon id, t.tables.leave (.call id)⟩

end Threads

end Keyring.Store
