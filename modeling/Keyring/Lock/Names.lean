import Keyring.Data.FiniteMap
import Keyring.Lock.Fair

/-!
# Locks by name

One lock per name that somebody uses. A table leads from names to lock objects; who asks for a
name's lock gets a reference to its object and keeps it until the lock is given back. Whenever a
reference is handed out, objects that nobody refers to are dropped from the table.

Taking a lock has two steps: `obtain` hands out the reference, and `request` asks the object for
the lock.
-/

namespace Keyring

/-- The locks of all names. -/
structure NameLocks where
  /-- The number of the next lock object. -/
  fresh : Nat
  /-- The lock objects by name. -/
  table : NameMap Nat
  /-- The lock objects that are referred to, by who does. -/
  references : FiniteMap Nat Nat
  /-- The states of the lock objects. -/
  objects : FiniteMap Nat FairLock

namespace NameLocks

/-- No locks. -/
def empty : NameLocks := ⟨0, .empty, .empty, .empty⟩

instance : Inhabited NameLocks := ⟨empty⟩

/-- Whether somebody refers to a lock object. -/
def isUsed (l : NameLocks) (object : Nat) : Bool := l.references.entries.any fun e => e.2 = object

/-- Drop lock objects that nobody refers to. -/
def prune (l : NameLocks) : NameLocks :=
  { l with
    table := l.table.filter fun _ object => l.isUsed object
    objects := l.objects.filter fun object _ => l.isUsed object }

/-- Hand out a reference to a name's lock object, a new one if there is none. -/
def obtain (l : NameLocks) (id : Nat) (name : String) : NameLocks :=
  let l := l.prune
  match l.table.find? name with
  | some object => { l with references := l.references.insert id object }
  | none =>
    { fresh := l.fresh + 1
      table := l.table.insert name l.fresh
      references := l.references.insert id l.fresh
      objects := l.objects.insert l.fresh .idle }

/-- The lock object that somebody refers to. -/
def object? (l : NameLocks) (id : Nat) : Option (Nat × FairLock) :=
  match l.references.find? id with
  | none => none
  | some object => some (object, (l.objects.find? object).getD .idle)

/-- Ask the lock object that is referred to for the lock. -/
def request (l : NameLocks) (id : Nat) (mode : LockMode) : NameLocks :=
  match l.object? id with
  | none => l
  | some (object, lock) => { l with objects := l.objects.insert object (lock.request id mode) }

/-- Give a lock back or give up waiting for it, and let go of its object. -/
def leave (l : NameLocks) (id : Nat) : NameLocks :=
  match l.object? id with
  | none => l
  | some (object, lock) =>
    { l with
      references := l.references.erase id
      objects := l.objects.insert object (lock.leave id) }

/-- Whether somebody holds the lock that it refers to. -/
def isHeldBy (l : NameLocks) (id : Nat) : Bool :=
  match l.object? id with
  | none => false
  | some (_, lock) => lock.isHeldBy id

end NameLocks

end Keyring
