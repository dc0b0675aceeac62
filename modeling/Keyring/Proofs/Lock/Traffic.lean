import Keyring.Proofs.Lock.Objects

/-!
# Traffic on the locks of names

Requests for the locks of names come and go. Each makes four steps: it obtains a reference to the
lock object of its name, asks for the lock, gives the lock back or gives up waiting for it, and lets
go of the object. Between any two of them other requests make theirs, and each new request drops the
objects that nobody refers to.

However the steps mix, no lock is split: there is never a second object for a name that somebody
uses. So whoever holds a lock alone is alone until it gives the lock back.

* `Traffic`, `Traffic.move`, `Traffic.run` — requests with the locks, and what they do;
* `Traffic.Step`, `Traffic.step_move` — what a request can do when it comes to its turn;
* `Traffic.Sound`, `Traffic.Sound.step` — the locks are those of the requests, and stay so;
* `Traffic.Sound.mem_users_iff` — who holds an object or waits for it;
* `Traffic.Sound.holds_step` — whoever holds a lock keeps it until it gives it back;
* `Traffic.never_split` — what holds after every run.
-/

namespace Keyring.NameLocks

/-- How far somebody has come with the lock of a name. -/
inductive Phase where
  /-- It refers to the lock object and has not asked for the lock. -/
  | referring
  /-- It has asked for the lock, and waits for it or holds it. -/
  | asked
  /-- It has given the lock back or given up waiting, and still refers to the lock object. -/
  | left
  deriving DecidableEq

/-- A request for the lock of a name. -/
structure Request where
  /-- The name. -/
  name : String
  /-- How the lock is to be held. -/
  mode : LockMode
  /-- How far it has come. -/
  phase : Phase
  deriving DecidableEq

/-- The locks of all names and the requests for them, by number. -/
structure Traffic where
  /-- The locks. -/
  locks : NameLocks
  /-- The requests that have not let go of their objects. -/
  requests : FiniteMap Nat Request

namespace Traffic

/-- No requests. -/
def start : Traffic := ⟨.empty, .empty⟩

/-- A new request obtains a reference to the lock object of its name. -/
def enter (t : Traffic) (id : Nat) (name : String) (mode : LockMode) : Traffic :=
  match t.requests.find? id with
  | none => ⟨t.locks.obtain id name, t.requests.insert id ⟨name, mode, .referring⟩⟩
  | some _ => t

/-- A request asks for its lock. -/
def ask (t : Traffic) (id : Nat) : Traffic :=
  match t.requests.find? id with
  | some ⟨name, mode, .referring⟩ =>
    ⟨t.locks.request id mode, t.requests.insert id ⟨name, mode, .asked⟩⟩
  | _ => t

/-- A request gives its lock back, or gives up waiting for it. -/
def giveBack (t : Traffic) (id : Nat) : Traffic :=
  match t.requests.find? id with
  | some ⟨name, mode, .asked⟩ =>
    ⟨t.locks.giveBack id, t.requests.insert id ⟨name, mode, .left⟩⟩
  | _ => t

/-- A request that has nothing from its lock lets go of the object and is over. -/
def letGo (t : Traffic) (id : Nat) : Traffic :=
  match t.requests.find? id with
  | none | some ⟨_, _, .asked⟩ => t
  | some _ => ⟨t.locks.letGo id, t.requests.erase id⟩

/-- What may happen next. -/
inductive Move where
  /-- A new request comes. -/
  | enter (id : Nat) (name : String) (mode : LockMode)
  /-- A request asks for its lock. -/
  | ask (id : Nat)
  /-- A request gives its lock back, or gives up waiting for it. -/
  | giveBack (id : Nat)
  /-- A request lets go of its object. -/
  | letGo (id : Nat)
  deriving DecidableEq

/-- What a move does. One that the request of its number cannot make does nothing. -/
def move (t : Traffic) : Move → Traffic
  | .enter id name mode => t.enter id name mode
  | .ask id => t.ask id
  | .giveBack id => t.giveBack id
  | .letGo id => t.letGo id

/-- The traffic after some moves. -/
def run (t : Traffic) (moves : List Move) : Traffic := moves.foldl move t

/-- What a move does to traffic, by what the request of its number can do. -/
inductive Step (t : Traffic) : Move → Traffic → Prop
  /-- A number that is free makes a new request. -/
  | enter {id : Nat} {name : String} {mode : LockMode} (hfree : t.requests.find? id = none) :
    Step t (.enter id name mode)
      ⟨t.locks.obtain id name, t.requests.insert id ⟨name, mode, .referring⟩⟩
  /-- A request asks once. -/
  | ask {id : Nat} {name : String} {mode : LockMode}
    (hr : t.requests.find? id = some ⟨name, mode, .referring⟩) :
    Step t (.ask id) ⟨t.locks.request id mode, t.requests.insert id ⟨name, mode, .asked⟩⟩
  /-- A request that has asked gives back what it has. -/
  | giveBack {id : Nat} {name : String} {mode : LockMode}
    (hr : t.requests.find? id = some ⟨name, mode, .asked⟩) :
    Step t (.giveBack id) ⟨t.locks.giveBack id, t.requests.insert id ⟨name, mode, .left⟩⟩
  /-- A request that has nothing from its lock lets go of the object. -/
  | letGo {id : Nat} {r : Request} (hr : t.requests.find? id = some r) (hphase : r.phase ≠ .asked) :
    Step t (.letGo id) ⟨t.locks.letGo id, t.requests.erase id⟩
  /-- Nothing happens. -/
  | stay (m : Move) : Step t m t

/-- The name whose lock somebody uses. A request uses the lock of its name from when it gets its
reference until it lets go of it, so while it waits and while it holds the lock. -/
def user? (t : Traffic) (id : Nat) : Option String := (t.requests.find? id).map Request.name

/-- Somebody holds the lock of a name: it is a holder of the object that it refers to. -/
def Holds (t : Traffic) (id : Nat) (name : String) (mode : LockMode) : Prop :=
  t.user? id = some name ∧ t.locks.HeldBy id mode

/-- The locks are those of the requests, and the users of each are those that have asked. -/
structure Sound (t : Traffic) : Prop where
  /-- The locks are those of the requests. -/
  agrees : t.locks.Agrees t.user?
  /-- A request that has asked, and no other, has asked for its lock, in its own way. -/
  asked : ∀ id r, t.requests.find? id = some r → ∀ mode,
    t.locks.AskedBy id mode ↔ r.phase = .asked ∧ r.mode = mode

variable {t u : Traffic} {m : Move} {moves : List Move} {id j object : Nat} {name : String}
  {mode : LockMode} {r : Request} {locks : NameLocks}

theorem step_move (t : Traffic) (m : Move) : t.Step m (t.move m) := by
  cases m with
  | enter id name mode =>
    rw [move, enter]
    split
    · next hfree => exact .enter hfree
    · exact .stay _
  | ask id =>
    rw [move, ask]
    split
    · next hr => exact .ask hr
    · exact .stay _
  | giveBack id =>
    rw [move, giveBack]
    split
    · next hr => exact .giveBack hr
    · exact .stay _
  | letGo id =>
    rw [move, letGo]
    split
    · exact .stay _
    · exact .stay _
    · next r hasked hr => exact .letGo hr fun hphase => hasked r.name r.mode (by rw [← hphase])

theorem user?_eq_some_iff :
    t.user? id = some name ↔ ∃ r, t.requests.find? id = some r ∧ r.name = name := by
  rw [user?, Option.map_eq_some_iff]

theorem user?_of_find? (hr : t.requests.find? id = some r) : t.user? id = some r.name := by
  rw [user?, hr, Option.map_some]

/-- Who uses which name when the request of a number is put into a new phase. -/
theorem user?_insert (t : Traffic) (locks : NameLocks) (id : Nat) (r : Request) :
    user? ⟨locks, t.requests.insert id r⟩ = Function.update t.user? id (some r.name) := by
  funext j
  by_cases hj : j = id <;> simp [user?, hj]

theorem user?_erase (t : Traffic) (locks : NameLocks) (id : Nat) :
    user? ⟨locks, t.requests.erase id⟩ = Function.update t.user? id none := by
  funext j
  by_cases hj : j = id <;> simp [user?, hj]

/-- A request in a new phase uses the lock of the name that it used. -/
theorem update_user? (hr : t.requests.find? id = some r) :
    Function.update t.user? id (some r.name) = t.user? := by
  rw [← user?_of_find? hr, Function.update_eq_self]

/-! ### Every move keeps the locks those of the requests -/

theorem sound_start : start.Sound where
  agrees := agrees_empty
  asked id r hr := by simp [start] at hr

/-- Each request refers to an object. -/
theorem Sound.exists_reference (h : t.Sound) (hr : t.requests.find? id = some r) :
    ∃ object, t.locks.references.find? id = some object := by
  obtain ⟨object, -, href⟩ := h.agrees.current id r.name (user?_of_find? hr)
  exact ⟨object, href⟩

/-- The locks stay those of the requests when one request is put into a new phase, if its own asking
agrees with that phase and nobody else has asked for more or less than before. -/
theorem Sound.insert (h : t.Sound)
    (hagrees : locks.Agrees (Function.update t.user? id (some r.name)))
    (hself : ∀ mode, locks.AskedBy id mode ↔ r.phase = .asked ∧ r.mode = mode)
    (hother : ∀ j name mode, j ≠ id → t.user? j = some name →
      (locks.AskedBy j mode ↔ t.locks.AskedBy j mode)) :
    Sound ⟨locks, t.requests.insert id r⟩ where
  agrees := by
    rw [user?_insert]
    exact hagrees
  asked j r' hr' mode := by
    by_cases hj : j = id
    · subst hj
      obtain rfl : r = r' := by simpa using hr'
      exact hself mode
    · have hr : t.requests.find? j = some r' := by simpa [hj] using hr'
      exact (hother j r'.name mode hj (user?_of_find? hr)).trans (h.asked j r' hr mode)

/-- Every step keeps the locks those of the requests. -/
theorem Sound.step (h : t.Sound) (hstep : t.Step m u) : u.Sound := by
  -- the request that makes the step has what its new phase says, and the others keep what they have
  cases hstep with
  | @enter id name mode hfree =>
    -- pruning drops nothing that another request refers to
    have huser : t.user? id = none := by rw [user?, hfree, Option.map_none]
    refine h.insert (agrees_obtain h.agrees huser name) (fun mode => ?_) fun j n mode hj hn => ?_
    · exact iff_of_false (not_askedBy_obtain h.agrees huser name mode) (by simp)
    · exact askedBy_obtain_iff h.agrees hj hn name
  | @ask id name mode hr =>
    obtain ⟨object, href⟩ := h.exists_reference hr
    -- a request that only refers to its object has asked for nothing so far
    have hnew (mode : LockMode) : ¬t.locks.AskedBy id mode := by
      rw [h.asked id _ hr]
      simp
    have hagrees := agrees_request h.agrees href hnew mode
    have hasked := askedBy_request href mode
    refine h.insert ?_ (fun mode' => ⟨fun hmode => ?_, ?_⟩) fun j n mode' hj _ => ?_
    · rwa [update_user? (r := ⟨name, mode, .referring⟩) hr]
    · exact ⟨rfl, hagrees.mode_eq_of_askedBy hasked hmode⟩
    · rintro ⟨-, rfl⟩
      exact hasked
    · exact askedBy_request_iff href hj mode
  | @giveBack id name mode hr =>
    obtain ⟨object, href⟩ := h.exists_reference hr
    refine h.insert ?_ (fun mode => ?_) fun j n mode hj _ => ?_
    · rw [update_user? (r := ⟨name, mode, .asked⟩) hr]
      exact agrees_giveBack h.agrees href
    · exact iff_of_false (not_askedBy_giveBack href mode) (by simp)
    · exact askedBy_giveBack_iff href hj
  | @letGo id r hr hphase =>
    refine ⟨?_, fun j r' hr' mode => ?_⟩
    · -- a reference is only given up when nothing has been asked for, or all has been given back
      rw [user?_erase]
      refine agrees_letGo h.agrees fun mode hasked => ?_
      exact hphase ((h.asked id r hr mode).1 hasked).1
    · have hj : j ≠ id := by
        rintro rfl
        simp at hr'
      rw [askedBy_letGo_iff hj]
      exact h.asked j r' (by simpa [hj] using hr') mode
  | stay => exact h

theorem Sound.run (h : t.Sound) (moves : List Move) : (t.run moves).Sound := by
  induction moves generalizing t with
  | nil => exact h
  | cons m moves ih => exact ih (h.step (t.step_move m))

/-! ### Whoever holds a lock keeps it -/

/-- Those who hold an object or wait for it are the requests that have asked for the lock of its
name. -/
theorem Sound.mem_users_iff (h : t.Sound) :
    (id, mode) ∈ (t.locks.lockAt object).users ↔
      ∃ name, t.requests.find? id = some ⟨name, mode, .asked⟩ ∧
        t.locks.table.find? name = some object := by
  constructor
  · intro hmem
    have href := h.agrees.referring object id mode hmem
    obtain ⟨name, huser⟩ := h.agrees.used id object href
    obtain ⟨⟨n, m, phase⟩, hr, rfl⟩ := user?_eq_some_iff.1 huser
    -- what a request waits for or holds is what it has asked for
    obtain ⟨rfl, rfl⟩ := (h.asked id _ hr mode).1 ⟨object, href, hmem⟩
    exact ⟨n, hr, h.agrees.table_of_reference huser href⟩
  · rintro ⟨name, hr, htable⟩
    obtain ⟨o, href, hmem⟩ := (h.asked id _ hr mode).2 ⟨rfl, rfl⟩
    have href' := h.agrees.reference_of_table (user?_of_find? hr) htable
    obtain rfl : o = object := Option.some.inj (href.symm.trans href')
    exact hmem

/-- A holder has asked for the lock that it holds. -/
theorem Sound.find?_of_holds (h : t.Sound) (hholds : t.Holds id name mode) :
    t.requests.find? id = some ⟨name, mode, .asked⟩ := by
  obtain ⟨huser, object, href, hmem⟩ := hholds
  obtain ⟨⟨n, m, phase⟩, hr, rfl⟩ := user?_eq_some_iff.1 huser
  obtain ⟨rfl, rfl⟩ := (h.asked id _ hr mode).1 ⟨object, href, List.mem_append_left _ hmem⟩
  exact hr

/-- Whoever holds a lock keeps it until it gives it back. -/
theorem Sound.holds_step (h : t.Sound) (hstep : t.Step m u) (hholds : t.Holds id name mode)
    (hm : m ≠ .giveBack id) : u.Holds id name mode := by
  have hfind := h.find?_of_holds hholds
  obtain ⟨huser, hheld⟩ := hholds
  cases hstep with
  | @enter j n mode' hfree =>
    have hne : id ≠ j := by
      rintro rfl
      rw [hfind] at hfree
      cases hfree
    refine ⟨?_, hheld.obtain h.agrees hne n⟩
    rwa [user?_insert, Function.update_of_ne hne]
  | @ask j n mode' hr =>
    obtain ⟨object, href⟩ := h.exists_reference hr
    refine ⟨?_, hheld.request href mode'⟩
    rwa [user?_insert, update_user? (r := ⟨n, mode', .referring⟩) hr]
  | @giveBack j n mode' hr =>
    have hne : id ≠ j := by
      rintro rfl
      exact hm rfl
    obtain ⟨object, href⟩ := h.exists_reference hr
    refine ⟨?_, hheld.giveBack href hne⟩
    rwa [user?_insert, Function.update_of_ne hne]
  | @letGo j r hr hphase =>
    -- a request that holds a lock does not let go of its object
    have hne : id ≠ j := by
      rintro rfl
      obtain rfl := Option.some.inj (hfind.symm.trans hr)
      exact hphase rfl
    refine ⟨?_, hheld.letGo hne⟩
    rwa [user?_erase, Function.update_of_ne hne]
  | stay => exact ⟨huser, hheld⟩

theorem Sound.holds_run (h : t.Sound) (hholds : t.Holds id name mode)
    (hmoves : .giveBack id ∉ moves) : (t.run moves).Holds id name mode := by
  induction moves generalizing t with
  | nil => exact hholds
  | cons m moves ih =>
    rw [List.mem_cons, not_or] at hmoves
    have hstep := t.step_move m
    exact ih (h.step hstep) (h.holds_step hstep hholds (Ne.symm hmoves.1)) hmoves.2

/-- Whoever holds the lock of a name alone is its only holder. -/
theorem Sound.eq_of_holds (h : t.Sound) (hholds : t.Holds id name .exclusive)
    (hother : t.Holds j name mode) : j = id := by
  by_contra hne
  have hshared := h.agrees.shared_of_held hholds.1 hother.1 (Ne.symm hne) hholds.2 hother.2
  cases hshared.1

/-! ### No lock is split -/

theorem Step.renews (h : t.Step m u) : t.locks.Renews u.locks := by
  cases h with
  | enter => exact renews_obtain _ _ _
  | ask => exact renews_request _ _ _
  | giveBack => exact renews_giveBack _ _
  | letGo => exact renews_letGo _ _
  | stay => exact .refl _

theorem renews_run (t : Traffic) (moves : List Move) : t.locks.Renews (t.run moves).locks := by
  induction moves generalizing t with
  | nil => exact .refl _
  | cons m moves ih => exact (t.step_move m).renews.trans (ih _)

/-- However requests for locks come, wait, hold and go, each refers to the object that the table
holds under its name, and those who hold that object or wait for it are the requests that have asked
for the lock of the name. Whoever holds a lock alone keeps it, and is its only holder, until it
gives it back. An object that serves one name never serves another. And when a new request has
obtained its reference, the table holds its name and those that somebody uses, and no others. -/
theorem never_split (moves later : List Move) :
    let t := start.run moves
    let u := t.run later
    (∀ id name, t.user? id = some name → ∃ object,
      t.locks.table.find? name = some object ∧ t.locks.references.find? id = some object) ∧
    (∀ object id mode, (id, mode) ∈ (t.locks.lockAt object).users ↔
      ∃ name, t.requests.find? id = some ⟨name, mode, .asked⟩ ∧
        t.locks.table.find? name = some object) ∧
    (∀ id name, t.Holds id name .exclusive → .giveBack id ∉ later →
      u.Holds id name .exclusive ∧ ∀ j mode, u.Holds j name mode → j = id) ∧
    (∀ id j a b object, t.user? id = some a → t.locks.references.find? id = some object →
      u.user? j = some b → u.locks.references.find? j = some object → a = b) ∧
    (∀ id name mode, t.user? id = none → ∀ n,
      ((t.enter id name mode).locks.table.find? n).isSome = true ↔
        n = name ∨ ∃ j, t.user? j = some n) := by
  intro t u
  have hsound : t.Sound := sound_start.run moves
  have hsound' : u.Sound := hsound.run later
  refine ⟨hsound.agrees.current, fun object id mode => hsound.mem_users_iff,
    fun id name hholds hlater => ?_, fun id j a b object ha href hb href' => ?_,
    fun id name mode hfree n => ?_⟩
  · have hafter : u.Holds id name .exclusive := hsound.holds_run hholds hlater
    exact ⟨hafter, fun j mode hother => hsound'.eq_of_holds hafter hother⟩
  · exact hsound.agrees.eq_of_renews hsound'.agrees (t.renews_run later) ha href hb href'
  · have hnone : t.requests.find? id = none := Option.map_eq_none_iff.1 hfree
    rw [enter, hnone]
    exact hsound.agrees.isSome_obtain_iff hfree n

/-- A writer of one name holds its lock while a reader of it waits and gives up, a reader of another
name comes and goes, and a request for a third name drops the object of the second. -/
theorem never_split_readerGivesUp :
    let moves : List Move := [.enter 0 "a" .exclusive, .ask 0, .enter 1 "a" .shared,
      .enter 2 "b" .shared, .ask 2, .ask 1, .giveBack 2, .letGo 2]
    let later : List Move := [.enter 3 "c" .shared, .giveBack 1, .ask 3]
    let t := start.run moves
    let u := t.run later
    (t.user? 1 = some "a" ∧ ∃ object,
      t.locks.table.find? "a" = some object ∧ t.locks.references.find? 1 = some object) ∧
    (1, .shared) ∈ (t.locks.lockAt 0).users ∧
    (t.Holds 0 "a" .exclusive ∧ .giveBack 0 ∉ later ∧
      u.Holds 0 "a" .exclusive ∧ ∀ j mode, u.Holds j "a" mode → j = 0) ∧
    (t.user? 0 = some "a" ∧ t.locks.references.find? 0 = some 0 ∧ u.user? 3 = some "c" ∧
      u.locks.references.find? 3 ≠ some 0) ∧
    (t.user? 3 = none ∧ (t.locks.table.find? "b").isSome = true ∧
      ((t.enter 3 "c" .shared).locks.table.find? "b").isSome = false) := by
  intro moves later t u
  obtain ⟨hone, husers, halone, hapart, hpruned⟩ := never_split moves later
  have hreader : t.user? 1 = some "a" := by decide
  have hwriter : t.user? 0 = some "a" := by decide
  have href : t.locks.references.find? 0 = some 0 := by decide
  have hholds : t.Holds 0 "a" .exclusive := ⟨hwriter, 0, href, by decide⟩
  have hstays : .giveBack 0 ∉ later := by decide
  have hlast : u.user? 3 = some "c" := by decide
  have hfree : t.user? 3 = none := by decide
  refine ⟨⟨hreader, hone 1 "a" hreader⟩, (husers 0 1 .shared).2 ⟨"a", by decide, by decide⟩,
    ⟨hholds, hstays, halone 0 "a" hholds hstays⟩, ⟨hwriter, href, hlast, fun hsame => ?_⟩,
    hfree, by decide, ?_⟩
  · exact absurd (hapart 0 3 "a" "c" 0 hwriter href hlast hsame) (by decide)
  · rw [Bool.eq_false_iff, Ne, hpruned 3 "c" .shared hfree "b"]
    -- nobody uses the second name any more
    have hunused : ∀ e ∈ t.requests.entries, e.2.name ≠ "b" := by decide
    rintro (hsame | ⟨j, hj⟩)
    · exact absurd hsame (by decide)
    · obtain ⟨r, hr, hname⟩ := user?_eq_some_iff.1 hj
      exact hunused (j, r) (FiniteMap.mem_entries_iff.2 hr) hname

end Traffic

end Keyring.NameLocks
