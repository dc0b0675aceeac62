import Keyring.Lock.Names
import Keyring.Proofs.Lock.Fair

/-!
# Locks by name exclude

Whoever refers to a lock object refers to the one that the table holds under its name, although
every request drops the objects that nobody refers to. So two users of one name use one lock.

`Agrees users?` says how the locks stand to those who use them, where `users?` gives the name whose
lock somebody uses. `AskedBy` and `HeldBy` say what somebody's lock has from it.

* `agrees_obtain`, `agrees_request`, `agrees_leave` — each operation keeps agreement;
* `giveBack`, `letGo`, `leave_eq_letGo` — the two steps of leaving;
* `HeldBy.obtain`, `HeldBy.request`, `HeldBy.leave`, and the same for `AskedBy` — what one user
  does takes no lock from another;
* `Agrees.shared_of_held` — two holders of one name both share.
-/

namespace Keyring.NameLocks

variable {l : NameLocks} {user? : Nat → Option String} {id j object : Nat} {name : String}
  {mode : LockMode}

/-- The state of a lock object; one that is not kept is idle. -/
def lockAt (l : NameLocks) (object : Nat) : FairLock := (l.objects.find? object).getD .idle

/-- Somebody has asked for the lock that it refers to, or holds it. -/
def AskedBy (l : NameLocks) (id : Nat) (mode : LockMode) : Prop :=
  ∃ object, l.references.find? id = some object ∧ (id, mode) ∈ (l.lockAt object).users

/-- Somebody holds the lock that it refers to. -/
def HeldBy (l : NameLocks) (id : Nat) (mode : LockMode) : Prop :=
  ∃ object, l.references.find? id = some object ∧ (id, mode) ∈ (l.lockAt object).holders

/-- The locks are those of the users, of whom each uses the lock of one name. -/
structure Agrees (l : NameLocks) (user? : Nat → Option String) : Prop where
  /-- A user refers to the object that the table holds under its name. -/
  current : ∀ id name, user? id = some name →
    ∃ object, l.table.find? name = some object ∧ l.references.find? id = some object
  /-- Nobody else refers to an object. -/
  used : ∀ id object, l.references.find? id = some object → ∃ name, user? id = some name
  /-- Different names have different objects. -/
  injective : ∀ a b object, l.table.find? a = some object → l.table.find? b = some object → a = b
  /-- The next object is a new one. -/
  fresh : ∀ name object, l.table.find? name = some object → object < l.fresh
  /-- Every lock is sound. -/
  sound : ∀ object, (l.lockAt object).Sound
  /-- The users of a lock refer to it. -/
  referring : ∀ object id mode, (id, mode) ∈ (l.lockAt object).users →
    l.references.find? id = some object

/-- The object that a user refers to is the one that the table holds under its name. -/
theorem Agrees.table_of_reference (h : l.Agrees user?) (huser : user? id = some name)
    (href : l.references.find? id = some object) : l.table.find? name = some object := by
  obtain ⟨o, htable, ho⟩ := h.current id name huser
  rwa [← Option.some.inj (ho.symm.trans href)]

/-- A user refers to the object that the table holds under its name. -/
theorem Agrees.reference_of_table (h : l.Agrees user?) (huser : user? id = some name)
    (htable : l.table.find? name = some object) : l.references.find? id = some object := by
  obtain ⟨o, ho, href⟩ := h.current id name huser
  rwa [← Option.some.inj (ho.symm.trans htable)]

theorem object?_eq (l : NameLocks) (id : Nat) :
    l.object? id = (l.references.find? id).map fun object => (object, l.lockAt object) := by
  unfold object? lockAt
  cases l.references.find? id <;> rfl

theorem agrees_empty : empty.Agrees fun _ => none where
  current := by simp
  used := by simp [empty]
  injective := by simp [empty]
  fresh := by simp [empty]
  sound _ := FairLock.sound_idle
  referring := by simp [empty, lockAt, FairLock.idle, FairLock.users]

/-- Whether an object is used, by who refers to it. -/
theorem isUsed_of_reference (h : l.references.find? id = some object) : l.isUsed object = true := by
  rw [isUsed, List.any_eq_true]
  exact ⟨(id, object), FiniteMap.mem_entries_iff.2 h, by simp⟩

/-- Pruning keeps the objects that somebody refers to; the others are idle afterwards. -/
theorem lockAt_prune (l : NameLocks) (object : Nat) :
    l.prune.lockAt object = if l.isUsed object then l.lockAt object else .idle := by
  simp only [lockAt, prune, FiniteMap.find?_filter]
  cases hused : l.isUsed object <;> cases l.objects.find? object <;> simp [Option.filter]

/-- An object that somebody refers to is kept as it is. -/
theorem lockAt_prune_of_reference (h : l.references.find? id = some object) :
    l.prune.lockAt object = l.lockAt object := by
  rw [lockAt_prune, if_pos (isUsed_of_reference h)]

/-- Dropping objects that nobody refers to keeps agreement. -/
theorem Agrees.prune (h : l.Agrees user?) : l.prune.Agrees user? where
  current id name hid := by
    obtain ⟨object, htable, href⟩ := h.current id name hid
    refine ⟨object, ?_, href⟩
    simp [NameLocks.prune, htable, isUsed_of_reference href]
  used := h.used
  injective a b object ha hb := by
    simp only [NameLocks.prune, FiniteMap.find?_filter, Option.filter_eq_some_iff] at ha hb
    exact h.injective a b object ha.1 hb.1
  fresh name object hname := by
    simp only [NameLocks.prune, FiniteMap.find?_filter, Option.filter_eq_some_iff] at hname
    exact h.fresh name object hname.1
  sound object := by
    -- an object that is dropped is as good as idle
    rw [lockAt_prune]
    split
    · exact h.sound object
    · exact FairLock.sound_idle
  referring object id mode hmem := by
    rw [lockAt_prune] at hmem
    split at hmem
    · exact h.referring object id mode hmem
    · exact absurd hmem List.not_mem_nil

/-! ### Obtaining a reference -/

/-- One more reference to an object that the table holds keeps agreement. -/
theorem Agrees.refer (h : l.Agrees user?) (hfree : user? id = none)
    (htable : l.table.find? name = some object) :
    { l with references := l.references.insert id object }.Agrees
      (Function.update user? id (some name)) where
  current j n hj := by
    by_cases hjid : j = id
    · subst hjid
      obtain rfl : name = n := by simpa using hj
      exact ⟨object, htable, by simp⟩
    · rw [Function.update_of_ne hjid] at hj
      obtain ⟨o, ho, href⟩ := h.current j n hj
      exact ⟨o, ho, by simpa [hjid] using href⟩
  used j o hj := by
    by_cases hjid : j = id
    · exact ⟨name, by simp [hjid]⟩
    · rw [Function.update_of_ne hjid]
      exact h.used j o (by simpa [hjid] using hj)
  injective := h.injective
  fresh := h.fresh
  sound := h.sound
  referring o j m hm := by
    -- whoever obtains the reference was no user of any object before
    have href := h.referring o j m hm
    have hjid : j ≠ id := by
      rintro rfl
      obtain ⟨n, hn⟩ := h.used j o href
      rw [hfree] at hn
      cases hn
    simpa [hjid] using href

/-- One more object, for a name that has none, keeps agreement. -/
theorem Agrees.add (h : l.Agrees user?) (hnone : l.table.find? name = none) :
    { l with
      fresh := l.fresh + 1
      table := l.table.insert name l.fresh
      objects := l.objects.insert l.fresh .idle }.Agrees user? where
  current j n hj := by
    obtain ⟨o, ho, href⟩ := h.current j n hj
    have hn : n ≠ name := by
      rintro rfl
      rw [hnone] at ho
      cases ho
    exact ⟨o, by simpa [hn] using ho, href⟩
  used := h.used
  injective a b o ha hb := by
    -- no name had the new object before
    have hnew {n : String} (hn : l.table.find? n = some l.fresh) : False :=
      absurd (h.fresh n _ hn) (Nat.lt_irrefl _)
    by_cases ha' : a = name <;> by_cases hb' : b = name
    · rw [ha', hb']
    · obtain rfl : l.fresh = o := by simpa [ha'] using ha
      exact (hnew (by simpa [hb'] using hb)).elim
    · obtain rfl : l.fresh = o := by simpa [hb'] using hb
      exact (hnew (by simpa [ha'] using ha)).elim
    · exact h.injective a b o (by simpa [ha'] using ha) (by simpa [hb'] using hb)
  fresh n o hn := by
    by_cases hn' : n = name
    · obtain rfl : l.fresh = o := by simpa [hn'] using hn
      exact Nat.lt_succ_self _
    · exact Nat.lt_succ_of_lt (h.fresh n o (by simpa [hn'] using hn))
  sound o := by
    by_cases ho : o = l.fresh
    · simpa [lockAt, ho] using FairLock.sound_idle
    · simpa [lockAt, ho] using h.sound o
  referring o j m hm := by
    -- nobody uses the new object yet
    by_cases ho : o = l.fresh
    · simp [lockAt, ho, FairLock.idle, FairLock.users] at hm
    · exact h.referring o j m (by simpa [lockAt, ho] using hm)

/-- Whoever uses no lock is no user of any object. -/
theorem Agrees.not_mem_users (h : l.Agrees user?) (hfree : user? id = none) (object : Nat)
    (mode : LockMode) : (id, mode) ∉ (l.lockAt object).users := by
  intro hmem
  obtain ⟨name, hname⟩ := h.used id object (h.referring object id mode hmem)
  rw [hfree] at hname
  cases hname

theorem obtain_of_some (h : l.prune.table.find? name = some object) (id : Nat) :
    l.obtain id name =
      { l.prune with references := l.prune.references.insert id object } := by
  rw [NameLocks.obtain, h]

theorem obtain_of_none (h : l.prune.table.find? name = none) (id : Nat) :
    l.obtain id name =
      { fresh := l.prune.fresh + 1
        table := l.prune.table.insert name l.prune.fresh
        references := l.prune.references.insert id l.prune.fresh
        objects := l.prune.objects.insert l.prune.fresh .idle } := by
  rw [NameLocks.obtain, h]

/-- Obtaining a reference keeps agreement: there is one more user. -/
theorem agrees_obtain (h : l.Agrees user?) (hfree : user? id = none) (name : String) :
    (l.obtain id name).Agrees (Function.update user? id (some name)) := by
  cases htable : l.prune.table.find? name with
  | some object =>
    rw [obtain_of_some htable]
    exact h.prune.refer hfree htable
  | none =>
    rw [obtain_of_none htable]
    exact (h.prune.add htable).refer hfree (by simp)

/-- Obtaining a reference leaves those of others and the objects that they refer to. -/
theorem reference_obtain (h : l.Agrees user?) (hne : j ≠ id)
    (href : l.references.find? j = some object) (name : String) :
    (l.obtain id name).references.find? j = some object ∧
      (l.obtain id name).lockAt object = l.lockAt object := by
  have hlock := lockAt_prune_of_reference href
  have href' : l.prune.references.find? j = some object := href
  cases htable : l.prune.table.find? name with
  | some o =>
    rw [obtain_of_some htable]
    exact ⟨by simpa [hne] using href', hlock⟩
  | none =>
    -- the new object is none that is referred to
    obtain ⟨n, hn⟩ := h.used j object href
    have hold : object ≠ l.prune.fresh :=
      Nat.ne_of_lt (h.prune.fresh n object (h.prune.table_of_reference hn href'))
    rw [obtain_of_none htable]
    refine ⟨by simpa [hne] using href', ?_⟩
    rw [← hlock]
    simp [lockAt, hold]

/-- Whoever has just obtained a reference has not asked for the lock. -/
theorem not_askedBy_obtain (h : l.Agrees user?) (hfree : user? id = none) (name : String)
    (mode : LockMode) : ¬(l.obtain id name).AskedBy id mode := by
  rintro ⟨object, -, hmem⟩
  cases htable : l.prune.table.find? name with
  | some o =>
    rw [obtain_of_some htable] at hmem
    exact h.prune.not_mem_users hfree object mode hmem
  | none =>
    rw [obtain_of_none htable] at hmem
    exact (h.prune.add htable).not_mem_users hfree object mode hmem

/-- Obtaining a reference asks for no lock on behalf of another, and takes none. -/
theorem askedBy_obtain_iff (h : l.Agrees user?) (hne : j ≠ id) {n : String} (hj : user? j = some n)
    (name : String) : (l.obtain id name).AskedBy j mode ↔ l.AskedBy j mode := by
  obtain ⟨object, -, href⟩ := h.current j n hj
  obtain ⟨href', hlock⟩ := reference_obtain h hne href name
  simp only [AskedBy, href, href', Option.some.injEq, exists_eq_left', hlock]

/-- Obtaining a reference takes no lock from another. -/
theorem HeldBy.obtain (hj : l.HeldBy j mode) (h : l.Agrees user?) (hne : j ≠ id)
    (name : String) : (l.obtain id name).HeldBy j mode := by
  obtain ⟨object, href, hmem⟩ := hj
  obtain ⟨href', hlock⟩ := reference_obtain h hne href name
  exact ⟨object, href', by rwa [hlock]⟩

/-! ### Asking -/

/-- Putting an object into a new state leaves the others. -/
theorem lockAt_insert (l : NameLocks) (references : FiniteMap Nat Nat) (object o : Nat)
    (lock : FairLock) :
    { l with references, objects := l.objects.insert object lock }.lockAt o =
      if o = object then lock else l.lockAt o := by
  by_cases ho : o = object <;> simp [lockAt, ho]

theorem request_eq (href : l.references.find? id = some object) (mode : LockMode) :
    l.request id mode =
      { l with objects := l.objects.insert object ((l.lockAt object).request id mode) } := by
  rw [request, object?_eq, href]
  rfl

theorem agrees_request (h : l.Agrees user?) (href : l.references.find? id = some object)
    (hnew : ∀ m, ¬l.AskedBy id m) (mode : LockMode) : (l.request id mode).Agrees user? := by
  rw [request_eq href]
  refine ⟨h.current, h.used, h.injective, h.fresh, fun o => ?_, fun o j m hmem => ?_⟩
  · rw [lockAt_insert]
    split
    · exact (h.sound object).request fun m hm => hnew m ⟨object, href, hm⟩
    · exact h.sound o
  · rw [lockAt_insert] at hmem
    split at hmem
    case isTrue ho =>
      subst ho
      -- the only new user of the object is the one that asks
      rw [FairLock.users_request, List.mem_append, List.mem_singleton, Prod.mk.injEq] at hmem
      rcases hmem with hmem | ⟨rfl, -⟩
      · exact h.referring o j m hmem
      · exact href
    case isFalse => exact h.referring o j m hmem

theorem askedBy_request (href : l.references.find? id = some object) (mode : LockMode) :
    (l.request id mode).AskedBy id mode := by
  rw [request_eq href]
  refine ⟨object, href, ?_⟩
  rw [lockAt_insert, if_pos rfl, FairLock.users_request]
  exact List.mem_append_right _ List.mem_cons_self

/-- Asking is not asking on behalf of another. -/
theorem askedBy_request_iff (href : l.references.find? id = some object) (hne : j ≠ id)
    (m : LockMode) : (l.request id m).AskedBy j mode ↔ l.AskedBy j mode := by
  rw [request_eq href]
  refine exists_congr fun o => and_congr_right fun _ => ?_
  rw [lockAt_insert]
  split
  case isTrue ho =>
    subst ho
    simp [hne]
  case isFalse => rfl

/-- Asking takes no lock from anybody. -/
theorem HeldBy.request (hj : l.HeldBy j mode) (href : l.references.find? id = some object)
    (m : LockMode) : (l.request id m).HeldBy j mode := by
  obtain ⟨o, href', hmem⟩ := hj
  rw [request_eq href]
  refine ⟨o, href', ?_⟩
  rw [lockAt_insert]
  split
  case isTrue ho =>
    subst ho
    exact FairLock.mem_holders_request hmem
  case isFalse => exact hmem

/-! ### Giving a lock back -/

/-- Give a lock back or give up waiting for it, and keep the reference to its object. -/
def giveBack (l : NameLocks) (id : Nat) : NameLocks :=
  match l.object? id with
  | none => l
  | some (object, lock) => { l with objects := l.objects.insert object (lock.leave id) }

/-- Giving a lock back changes the object that is referred to. -/
theorem giveBack_eq (href : l.references.find? id = some object) :
    l.giveBack id = { l with objects := l.objects.insert object ((l.lockAt object).leave id) } := by
  rw [giveBack, object?_eq, href]
  rfl

/-- Giving a lock back keeps agreement: the references stay. -/
theorem agrees_giveBack (h : l.Agrees user?) (href : l.references.find? id = some object) :
    (l.giveBack id).Agrees user? := by
  rw [giveBack_eq href]
  refine ⟨h.current, h.used, h.injective, h.fresh, fun o => ?_, fun o j m hmem => ?_⟩
  · rw [lockAt_insert]
    split
    · exact (h.sound object).leave id
    · exact h.sound o
  · rw [lockAt_insert] at hmem
    split at hmem
    case isTrue ho =>
      subst ho
      rw [FairLock.users_leave, List.mem_filter] at hmem
      exact h.referring o j m hmem.1
    case isFalse => exact h.referring o j m hmem

/-- Whoever has given its lock back has asked for nothing. -/
theorem not_askedBy_giveBack (href : l.references.find? id = some object) (mode : LockMode) :
    ¬(l.giveBack id).AskedBy id mode := by
  rw [giveBack_eq href]
  rintro ⟨o, href', hmem⟩
  obtain rfl : object = o := Option.some.inj (href.symm.trans href')
  rw [lockAt_insert, if_pos rfl] at hmem
  simp at hmem

/-- Giving a lock back neither asks on behalf of another nor ends its asking. -/
theorem askedBy_giveBack_iff (href : l.references.find? id = some object) (hne : j ≠ id) :
    (l.giveBack id).AskedBy j mode ↔ l.AskedBy j mode := by
  rw [giveBack_eq href]
  refine exists_congr fun o => and_congr_right fun _ => ?_
  rw [lockAt_insert]
  split
  case isTrue ho =>
    subst ho
    simp [hne]
  case isFalse => rfl

/-- Giving a lock back takes no lock from another. -/
theorem HeldBy.giveBack (hj : l.HeldBy j mode) (href : l.references.find? id = some object)
    (hne : j ≠ id) : (l.giveBack id).HeldBy j mode := by
  obtain ⟨o, href', hmem⟩ := hj
  rw [giveBack_eq href]
  refine ⟨o, href', ?_⟩
  rw [lockAt_insert]
  split
  case isTrue ho =>
    subst ho
    exact FairLock.mem_holders_leave hmem hne
  case isFalse => exact hmem

/-! ### Letting go of an object -/

/-- Let go of the object that is referred to. -/
def letGo (l : NameLocks) (id : Nat) : NameLocks := { l with references := l.references.erase id }

/-- Letting go keeps agreement if one has asked for nothing: there is one user less. -/
theorem agrees_letGo (h : l.Agrees user?) (hnone : ∀ mode, ¬l.AskedBy id mode) :
    (l.letGo id).Agrees (Function.update user? id none) where
  current j n hj := by
    have hne : j ≠ id := by
      rintro rfl
      simp at hj
    rw [Function.update_of_ne hne] at hj
    obtain ⟨o, ho, href⟩ := h.current j n hj
    exact ⟨o, ho, by simpa [letGo, hne] using href⟩
  used j o hj := by
    have hne : j ≠ id := by
      rintro rfl
      simp [letGo] at hj
    rw [Function.update_of_ne hne]
    exact h.used j o (by simpa [letGo, hne] using hj)
  injective := h.injective
  fresh := h.fresh
  sound := h.sound
  referring o j m hmem := by
    -- the one that lets go is no user of any object
    have href := h.referring o j m hmem
    have hne : j ≠ id := by
      rintro rfl
      exact hnone m ⟨o, href, hmem⟩
    simpa [letGo, hne] using href

/-- Letting go neither asks on behalf of another nor ends its asking. -/
theorem askedBy_letGo_iff (hne : j ≠ id) : (l.letGo id).AskedBy j mode ↔ l.AskedBy j mode := by
  refine exists_congr fun o => and_congr_left fun _ => ?_
  simp [letGo, hne]

/-- Letting go takes no lock from another. -/
theorem HeldBy.letGo (hj : l.HeldBy j mode) (hne : j ≠ id) : (l.letGo id).HeldBy j mode := by
  obtain ⟨o, href, hmem⟩ := hj
  exact ⟨o, by simpa [NameLocks.letGo, hne] using href, hmem⟩

/-! ### Leaving -/

/-- Leaving is giving the lock back and then letting go of its object. -/
theorem leave_eq_letGo (href : l.references.find? id = some object) :
    l.leave id = (l.giveBack id).letGo id := by
  rw [giveBack_eq href, leave, object?_eq, href]
  rfl

/-- Leaving changes the object that is referred to, and ends the reference. -/
theorem leave_eq (href : l.references.find? id = some object) :
    l.leave id =
      { l with
        references := l.references.erase id
        objects := l.objects.insert object ((l.lockAt object).leave id) } := by
  rw [leave_eq_letGo href, giveBack_eq href]
  rfl

/-- Leaving keeps agreement: there is one user less. -/
theorem agrees_leave (h : l.Agrees user?) (href : l.references.find? id = some object) :
    (l.leave id).Agrees (Function.update user? id none) := by
  rw [leave_eq_letGo href]
  exact agrees_letGo (agrees_giveBack h href) (not_askedBy_giveBack href)

/-- Leaving neither asks on behalf of another nor ends its asking. -/
theorem askedBy_leave_iff (href : l.references.find? id = some object) (hne : j ≠ id) :
    (l.leave id).AskedBy j mode ↔ l.AskedBy j mode := by
  rw [leave_eq_letGo href, askedBy_letGo_iff hne, askedBy_giveBack_iff href hne]

/-- Leaving takes no lock from another. -/
theorem HeldBy.leave (hj : l.HeldBy j mode) (href : l.references.find? id = some object)
    (hne : j ≠ id) : (l.leave id).HeldBy j mode := by
  rw [leave_eq_letGo href]
  exact (hj.giveBack href hne).letGo hne

/-! ### Exclusion -/

/-- Two different holders of one name both share its lock. -/
theorem Agrees.shared_of_held (h : l.Agrees user?) {m : LockMode} (hid : user? id = some name)
    (hj : user? j = some name) (hne : id ≠ j) (hheld : l.HeldBy id mode) (hheld' : l.HeldBy j m) :
    mode = .shared ∧ m = .shared := by
  obtain ⟨o, href, hmem⟩ := hheld
  obtain ⟨o', href', hmem'⟩ := hheld'
  -- both refer to the object that the table holds under the name
  have hone := h.reference_of_table hj (h.table_of_reference hid href)
  obtain rfl : o = o' := Option.some.inj (hone.symm.trans href')
  exact (h.sound o).agree _ hmem _ hmem' fun heq => hne (congrArg Prod.fst heq)

/-- A user that is found to hold its lock holds it in the way it asked for. -/
theorem Agrees.held_of_asked (h : l.Agrees user?) (hasked : l.AskedBy id mode)
    (hheld : l.isHeldBy id = true) : l.HeldBy id mode := by
  obtain ⟨object, href, hmem⟩ := hasked
  refine ⟨object, href, (h.sound object).mem_holders hmem ?_⟩
  rw [isHeldBy, object?_eq, href] at hheld
  exact hheld

end Keyring.NameLocks
