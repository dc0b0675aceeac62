import Keyring.Data.FiniteMap
import Keyring.Secret
import Keyring.Time

/-!
# The cache

Secrets by name, each with the time it was put in and the time it was last used. The cache never
decides what is stored: an entry that is gone is simply loaded again.

Every operation takes the current time. Looking an entry up counts as use of it; finding it
occupied when adding does not.
-/

namespace Keyring

/-- A cached secret. -/
structure Cache.Entry where
  /-- The secret. -/
  secret : Secret
  /-- When it was put in. -/
  createdAt : Nat
  /-- When it was put in or last looked up. -/
  lastUsed : Nat
  deriving DecidableEq

/-- A cache. -/
structure Cache where
  /-- The entries by name. -/
  entries : NameMap Cache.Entry

namespace Cache

/-- The cache without entries. -/
def empty : Cache := ⟨.empty⟩

instance : Inhabited Cache := ⟨empty⟩

/-- An entry put in at a time. -/
def Entry.new (now : Nat) (secret : Secret) : Entry := ⟨secret, now, now⟩

/-- The secret held under a name. -/
def find? (c : Cache) (name : String) : Option Secret := (c.entries.find? name).map Entry.secret

/-- The number of entries. -/
def size (c : Cache) : Nat := c.entries.size

/-- Whether there is no entry. -/
def isEmpty (c : Cache) : Bool := c.entries.isEmpty

/-- Look a name up; a hit counts as use. -/
def get (c : Cache) (now : Nat) (name : String) : Option Secret × Cache :=
  match c.entries.find? name with
  | none => (none, c)
  | some entry => (some entry.secret, ⟨c.entries.insert name { entry with lastUsed := now }⟩)

/-- Put a secret in, in place of what was there. -/
def set (c : Cache) (now : Nat) (name : String) (secret : Secret) : Cache :=
  ⟨c.entries.insert name (.new now secret)⟩

/-- Put a secret in unless there is one. Gives the secret that the cache then holds, and whether it
was put in now. -/
def add (c : Cache) (now : Nat) (name : String) (secret : Secret) : (Secret × Bool) × Cache :=
  match c.entries.find? name with
  | some entry => ((entry.secret, false), c)
  | none => ((secret, true), ⟨c.entries.insert name (.new now secret)⟩)

/-- Remove a name. -/
def erase (c : Cache) (name : String) : Cache := ⟨c.entries.erase name⟩

/-- Keep the entries that pass a test. -/
def retain (c : Cache) (keep : Entry → Bool) : Cache := ⟨c.entries.filter fun _ e => keep e⟩

@[simp] theorem find?_empty (name : String) : empty.find? name = none := rfl

@[simp] theorem get_fst (c : Cache) (now : Nat) (name : String) :
    (c.get now name).1 = c.find? name := by
  unfold get find?
  split <;> simp_all

@[simp] theorem find?_get (c : Cache) (now : Nat) (a b : String) :
    (c.get now a).2.find? b = c.find? b := by
  unfold get find?
  split
  · rfl
  · next entry h =>
    by_cases hb : b = a
    · subst hb; simp [h]
    · simp [hb]

@[simp] theorem find?_set (c : Cache) (now : Nat) (a b : String) (s : Secret) :
    (c.set now a s).find? b = if b = a then some s else c.find? b := by
  by_cases hb : b = a <;> simp [set, find?, hb, Entry.new]

@[simp] theorem find?_erase (c : Cache) (a b : String) :
    (c.erase a).find? b = if b = a then none else c.find? b := by
  by_cases hb : b = a <;> simp [erase, find?, hb]

end Cache

end Keyring
