import Keyring.Proofs.Lock.Names
import Keyring.Proofs.Store.Perform

/-!
# Calls exclude each other

A call at work on a name holds the lock of that name in the way that its work asks for. So while a
call that deletes a key is at work, no other call is at work on that key.

* `Stage.Locked` — what a call at a stage has from its lock;
* `Sound` — calls are at fitting stages and have from their locks what they should;
* `Sound.newCall`, `Sound.advances`, `Sound.fades` — every move keeps that;
* `WorksOn`, `Sound.alone` — exclusion;
* `Legal.keeps` — what the three kinds of moves keep holds after a run.
-/

namespace Keyring.Store

/-- What a call at a stage has from its lock. -/
def Stage.Locked (locks : NameLocks) (id : Nat) : Stage → Prop
  | .request _ => ∀ mode, ¬locks.AskedBy id mode
  | .wait w => locks.AskedBy id w.mode
  | .work w => locks.HeldBy id w.mode
  | .leave _ => ∃ mode, locks.HeldBy id mode
  | _ => True

/-- Whether a call at a stage refers to the lock of its name. -/
def Stage.refers : Stage → Bool
  | .request _ | .wait _ | .work _ | .leave _ => true
  | _ => false

/-- A call that works under its lock or is about to give it back. -/
def Stage.AtWork : Stage → Prop
  | .work _ | .leave _ => True
  | _ => False

/-- A call does some work under the lock of a name. -/
def WorksOn (s : Store) (name : String) (id : Nat) (work : Work) : Prop :=
  ∃ call, s.calls.find? id = some call ∧ call.name = name ∧ call.stage = .work work

/-- The name whose lock somebody refers to. -/
def user? (s : Store) (id : Nat) : Option String :=
  (s.calls.find? id).bind fun call => if call.stage.refers then some call.name else none

/-- Calls are at fitting stages and have from their locks what they should. -/
structure Sound (s : Store) : Prop where
  /-- The locks are those of the calls that refer to them. -/
  agrees : s.locks.Agrees s.user?
  /-- Every call is at a fitting stage. -/
  fits : ∀ id call, s.calls.find? id = some call →
    call.stage.Fits s.settings call.name call.operation
  /-- Every call has from its lock what it should. -/
  locked : ∀ id call, s.calls.find? id = some call → call.stage.Locked s.locks id

variable {s t : Store} {id j : Nat} {name : String} {operation : Operation} {reply : Reply}
  {call other : Call} {stage stage' : Stage} {change : Change} {locks locks' : NameLocks}

theorem sound_new (settings : Settings) (disk : Disk) (now : Nat) :
    (new settings disk now).Sound where
  agrees := NameLocks.agrees_empty
  fits id call h := by simp [new] at h
  locked id call h := by simp [new] at h

/-- Nobody loses anything from its lock if nobody asks on its behalf or takes its lock. -/
theorem Stage.Locked.mono (h : stage.Locked locks j)
    (hasked : ∀ mode, locks'.AskedBy j mode ↔ locks.AskedBy j mode)
    (hheld : ∀ mode, locks.HeldBy j mode → locks'.HeldBy j mode) : stage.Locked locks' j := by
  cases stage with
  | request w => exact fun mode => mt (hasked mode).1 (h mode)
  | wait w => exact (hasked _).2 h
  | work w => exact hheld _ h
  | leave outcome =>
    obtain ⟨mode, hmode⟩ := h
    exact ⟨mode, hheld mode hmode⟩
  | start | lookUpNew _ | lookUp | record _ | encrypt _ | obtain _ | finished _ => trivial

/-- A stage at which a call does not refer to its lock has nothing from it. -/
theorem locked_of_refers_eq_false (h : stage.refers = false) : stage.Locked locks j := by
  cases stage <;> trivial

/-- Whether a call refers to its lock, by the name of the call. -/
theorem user?_eq (hcall : s.calls.find? id = some call) :
    s.user? id = if call.stage.refers then some call.name else none := by
  rw [user?, hcall, Option.bind_some]

/-! ### The call that makes a step -/

/-- A step that leaves the locks alone keeps what its call has from its lock. -/
theorem Next.locked (h : Next s id name operation reply stage change stage')
    (hagrees : s.locks.Agrees s.user?) (hlocked : stage.Locked s.locks id)
    (hobtain : ∀ w, stage ≠ .obtain w) (hrequest : ∀ w, stage ≠ .request w)
    (hleave : ∀ outcome, stage ≠ .leave outcome) :
    stage'.Locked s.locks id ∧ stage'.refers = stage.refers := by
  cases h with
  | obtain => exact absurd rfl (hobtain _)
  | request => exact absurd rfl (hrequest _)
  | left => exact absurd rfl (hleave _)
  -- whoever has asked and is found to hold the lock holds it in the way it asked for
  | granted hheld => exact ⟨hagrees.held_of_asked hlocked hheld, rfl⟩
  | _ => first
    | exact ⟨hlocked, rfl⟩
    | exact ⟨⟨_, hlocked⟩, rfl⟩

/-- Who refers to its lock after a step. -/
theorem Advances.user?_eq (h : s.Advances t id call reply change stage) :
    t.user? = Function.update s.user? id (if stage.refers then some call.name else none) := by
  funext j
  by_cases hj : j = id
  · subst hj
    simp [user?, h.calls]
  · simp [user?, h.calls, hj]

/-! ### The other calls -/

/-- What a call at a stage does with its lock takes nothing from another call's. -/
theorem Sound.locked_other (h : s.Sound) (hcall : s.calls.find? id = some call)
    (hother : s.calls.find? j = some other) (hne : j ≠ id) :
    other.stage.Locked (call.stage.locksAfter id call.name s.locks) j := by
  have hlocked := h.locked j other hother
  cases hrefers : other.stage.refers with
  -- a call that does not refer to its lock has nothing to lose
  | false => exact locked_of_refers_eq_false hrefers
  | true =>
    have huser : s.user? j = some other.name := by rw [Store.user?_eq hother, if_pos hrefers]
    have hid := Store.user?_eq hcall
    cases hstage : call.stage with
    | obtain w =>
      exact hlocked.mono (fun mode => NameLocks.askedBy_obtain_iff h.agrees hne huser _)
        fun mode hheld => hheld.obtain h.agrees hne _
    | request w =>
      obtain ⟨object, -, href⟩ := h.agrees.current id call.name (by rw [hid, hstage]; rfl)
      exact hlocked.mono (fun mode => NameLocks.askedBy_request_iff href hne _)
        fun mode hheld => hheld.request href _
    | leave outcome =>
      obtain ⟨object, -, href⟩ := h.agrees.current id call.name (by rw [hid, hstage]; rfl)
      exact hlocked.mono (fun mode => NameLocks.askedBy_leave_iff href hne)
        fun mode hheld => hheld.leave href hne
    | start | lookUpNew _ | lookUp | record _ | encrypt _ | wait _ | work _ | finished _ =>
      exact hlocked

/-! ### Every move keeps calls and locks sound -/

/-- A step of a call keeps its own hold on its lock right, and the locks in agreement. -/
theorem Sound.agrees_advances (h : s.Sound) (hcall : s.calls.find? id = some call)
    (hadv : s.Advances t id call reply change stage) :
    t.locks.Agrees t.user? ∧ stage.Locked t.locks id := by
  have huser := Store.user?_eq hcall
  have hlocked := h.locked id call hcall
  rw [hadv.user?_eq, hadv.locks]
  have hnext := hadv.next
  cases hstage : call.stage with
  | obtain w =>
    -- the call uses the lock from now on, and has not asked for it yet
    rw [hstage] at hnext huser
    cases hnext
    exact ⟨NameLocks.agrees_obtain h.agrees huser _,
      fun mode => NameLocks.not_askedBy_obtain h.agrees huser _ mode⟩
  | request w =>
    rw [hstage] at hnext huser hlocked
    cases hnext
    obtain ⟨object, -, href⟩ := h.agrees.current id call.name huser
    -- the call used the lock before
    have hsame : Function.update s.user? id (some call.name) = s.user? := by
      rw [← Function.update_eq_self id s.user?, Function.update_idem, huser]
      rfl
    refine ⟨?_, NameLocks.askedBy_request href _⟩
    rw [Stage.refers, if_pos rfl, hsame]
    exact NameLocks.agrees_request h.agrees href hlocked _
  | leave outcome =>
    rw [hstage] at hnext huser
    cases hnext
    obtain ⟨object, -, href⟩ := h.agrees.current id call.name huser
    exact ⟨NameLocks.agrees_leave h.agrees href, trivial⟩
  | start | lookUpNew _ | lookUp | record _ | encrypt _ | wait _ | work _ | finished _ =>
    -- the locks stay as they are, and so does whether the call refers to its own
    obtain ⟨hstage', hrefers⟩ := hnext.locked h.agrees hlocked
      (by simp [hstage]) (by simp [hstage]) (by simp [hstage])
    rw [hrefers, ← huser, Function.update_eq_self]
    exact ⟨h.agrees, hstage'⟩

/-- A step of a call keeps calls and locks sound. -/
theorem Sound.advances (h : s.Sound) (hcall : s.calls.find? id = some call)
    (hadv : s.Advances t id call reply change stage) : t.Sound where
  agrees := (h.agrees_advances hcall hadv).1
  fits := by
    rw [hadv.settings]
    exact hadv.forall_calls (hadv.next.fits (h.fits id call hcall)) fun j other _ => h.fits j other
  locked := by
    refine hadv.forall_calls (h.agrees_advances hcall hadv).2 fun j other hne hother => ?_
    rw [hadv.locks]
    exact h.locked_other hcall hother hne

theorem Sound.step (h : s.Sound) (hcall : s.calls.find? id = some call) (reply : Reply) :
    (s.step id reply).Sound := by
  obtain ⟨change, stage, hadv⟩ := exists_advances hcall (h.fits id call hcall) reply
  exact h.advances hcall hadv

theorem Sound.newCall (h : s.Sound) (hfresh : s.calls.find? id = none) (name : String)
    (operation : Operation) : (s.call id name operation).Sound where
  agrees := by
    have huser : (s.call id name operation).user? = s.user? := by
      funext j
      by_cases hj : j = id
      · subst hj
        simp [user?, Store.call, hfresh, Stage.refers]
      · simp [user?, Store.call, hj]
    rw [huser]
    exact h.agrees
  fits := forall_calls_call trivial h.fits
  locked := forall_calls_call trivial h.locked

theorem Sound.fades (h : s.Sound) (hfades : s.Fades t) : t.Sound := by
  have huser : t.user? = s.user? := by
    funext j
    rw [user?, hfades.calls, user?]
  refine ⟨?_, fun j other hother => ?_, fun j other hother => ?_⟩
  · rw [huser, hfades.locks]
    exact h.agrees
  · rw [hfades.calls] at hother
    rw [hfades.settings]
    exact h.fits j other hother
  · rw [hfades.calls] at hother
    rw [hfades.locks]
    exact h.locked j other hother

/-! ### Exclusion -/

/-- While a call works that has its lock alone, no other call of its name is at work. -/
theorem Sound.alone (h : s.Sound) (hcall : s.calls.find? id = some call)
    (hother : s.calls.find? j = some other) {work : Work} (hwork : call.stage = .work work)
    (hmode : work.mode = .exclusive) (hatWork : other.stage.AtWork)
    (hname : call.name = other.name) : id = j := by
  by_contra hne
  -- both calls use and hold the lock of one name, and would have to share it
  have huser : s.user? id = some call.name := by rw [Store.user?_eq hcall, hwork]; rfl
  have huser' : s.user? j = some call.name := by
    rw [Store.user?_eq hother, hname]
    cases hstage : other.stage <;> rw [hstage] at hatWork <;> first | rfl | cases hatWork
  have hheld : s.locks.HeldBy id .exclusive := by
    have hlocked := h.locked id call hcall
    rwa [hwork, Stage.Locked, hmode] at hlocked
  have hheld' : ∃ mode, s.locks.HeldBy j mode := by
    have hlocked := h.locked j other hother
    cases hstage : other.stage <;> rw [hstage] at hatWork hlocked <;> first
      | exact ⟨_, hlocked⟩
      | exact hlocked
      | cases hatWork
  obtain ⟨mode, hmode'⟩ := hheld'
  cases (h.agrees.shared_of_held huser huser' hne hheld hmode').1

/-- What a call works on is its own name. -/
theorem WorksOn.of_call {work : Work} (h : s.WorksOn name id work)
    (hcall : s.calls.find? id = some call) : call.name = name ∧ call.stage = .work work := by
  obtain ⟨other, hother, hname, hstage⟩ := h
  obtain rfl := Option.some.inj (hcall.symm.trans hother)
  exact ⟨hname, hstage⟩

/-- A call does one thing at a time. -/
theorem WorksOn.unique {work work' : Work} (h : s.WorksOn name id work)
    (h' : s.WorksOn name id work') : work = work' := by
  obtain ⟨call, hcall, -, hstage⟩ := h
  exact Stage.work.inj (hstage.symm.trans (h'.of_call hcall).2)

/-- While a call works that has its lock alone, no other works on its name. -/
theorem Sound.eq_of_exclusive (h : s.Sound) {work work' : Work} (hid : s.WorksOn name id work)
    (hmode : work.mode = .exclusive) (hj : s.WorksOn name j work') : id = j := by
  obtain ⟨call, hcall, hname, hstage⟩ := hid
  obtain ⟨other, hother, hname', hstage'⟩ := hj
  have hatWork : other.stage.AtWork := by rw [hstage']; trivial
  exact h.alone hcall hother hstage hmode hatWork (hname.trans hname'.symm)

/-- Which calls work on a name after a step. -/
theorem Advances.worksOn_iff (h : s.Advances t id call reply change stage) {work : Work} :
    t.WorksOn name j work ↔
      if j = id then call.name = name ∧ stage = .work work else s.WorksOn name j work := by
  unfold WorksOn
  rw [h.calls]
  split <;> simp

/-- A step changes nothing about who works on other names. -/
theorem Advances.worksOn_iff_of_ne (h : s.Advances t id call reply change stage)
    (hcall : s.calls.find? id = some call) (hne : call.name ≠ name) {work : Work} :
    t.WorksOn name j work ↔ s.WorksOn name j work := by
  rw [h.worksOn_iff]
  split
  case isTrue hj =>
    subst hj
    exact iff_of_false (fun heq => hne heq.1) fun hworks => hne (hworks.of_call hcall).1
  case isFalse => rfl

/-- A new call works on nothing. -/
theorem worksOn_call_iff (hfresh : s.calls.find? id = none) {n : String} {work : Work} :
    (s.call id name operation).WorksOn n j work ↔ s.WorksOn n j work := by
  unfold WorksOn
  by_cases hj : j = id
  · subst hj
    simp [Store.call, hfresh]
  · simp [Store.call, hj]

theorem Fades.worksOn_iff (h : s.Fades t) {work : Work} :
    t.WorksOn name j work ↔ s.WorksOn name j work := by
  rw [WorksOn, h.calls, WorksOn]

/-! ### Runs -/

variable {allows : Store → Move → Prop} {moves : List Move} {move : Move}

/-- What new calls, steps of calls and moves that no call makes keep holds after a run. -/
theorem Legal.keeps {P : Store → Prop}
    (hcall : ∀ s id name operation, s.Sound → P s → s.calls.find? id = none →
      allows s (.call id name operation) → P (s.call id name operation))
    (hstep : ∀ s id call reply change stage, s.Sound → P s → s.calls.find? id = some call →
      allows s (.step id reply) → s.Advances (s.step id reply) id call reply change stage →
      P (s.step id reply))
    (hfades : ∀ s t, s.Sound → P s → s.Fades t → P t)
    (hlegal : Legal allows s moves) (hsound : s.Sound) (hs : P s) :
    (s.run moves).Sound ∧ P (s.run moves) := by
  refine hlegal.invariant (P := fun s => s.Sound ∧ P s) (fun s m hinv hfresh hallows => ?_)
    ⟨hsound, hs⟩
  obtain ⟨hsound, hinv⟩ := hinv
  rcases move_cases s m with ⟨id, name, operation, rfl⟩ | ⟨id, reply, rfl⟩ | hfade
  · exact ⟨hsound.newCall hfresh name operation,
      hcall s id name operation hsound hinv hfresh hallows⟩
  · cases hfind : s.calls.find? id with
    | none =>
      -- a call that was not made makes no steps
      have hsame : s.move (.step id reply) = s := by rw [Store.move, step, hfind]
      rw [hsame]
      exact ⟨hsound, hinv⟩
    | some call =>
      obtain ⟨change, stage, hadv⟩ := exists_advances hfind (hsound.fits id call hfind) reply
      exact ⟨hsound.advances hfind hadv,
        hstep s id call reply change stage hsound hinv hfind hallows hadv⟩
  · exact ⟨hsound.fades hfade, hfades s _ hsound hinv hfade⟩

/-- Calls and locks are sound after a run. -/
theorem Legal.sound (hlegal : Legal allows s moves) (hsound : s.Sound) : (s.run moves).Sound :=
  (hlegal.keeps (P := fun _ => True) (fun _ _ _ _ _ _ _ _ => trivial)
    (fun _ _ _ _ _ _ _ _ _ _ _ => trivial) (fun _ _ _ _ _ => trivial) hsound trivial).1

/-- The settings never change. -/
theorem Legal.settings_eq (hlegal : Legal allows s moves) (hsound : s.Sound) :
    (s.run moves).settings = s.settings :=
  (hlegal.keeps (P := fun t => t.settings = s.settings) (fun _ _ _ _ _ h _ _ => h)
    (fun _ _ _ _ _ _ _ h _ _ hadv => hadv.settings.trans h)
    (fun _ _ _ h hfades => hfades.settings.trans h) hsound rfl).2

/-- How a call ended, by its stage. -/
theorem outcome?_eq_some_iff {outcome : Outcome} :
    s.outcome? id = some outcome ↔
      ∃ call, s.calls.find? id = some call ∧ call.stage = .finished outcome := by
  unfold outcome? stage?
  cases hcall : s.calls.find? id with
  | none => simp
  | some call =>
    cases hstage : call.stage <;> simp [hstage]

/-- A call stays, and stays over if it is. -/
theorem exists_call_move (hsound : s.Sound) (hfresh : move.Fresh s)
    (hcall : s.calls.find? id = some call) :
    ∃ stage, (s.move move).calls.find? id = some { call with stage } ∧
      ∀ outcome, call.stage = .finished outcome → stage = .finished outcome := by
  rcases move_cases s move with ⟨j, name, operation, rfl⟩ | ⟨j, reply, rfl⟩ | hfades
  · -- a new call has a number of its own
    have hj : id ≠ j := by
      rintro rfl
      rw [Move.Fresh, hcall] at hfresh
      cases hfresh
    exact ⟨call.stage, by simpa [Store.move, Store.call, hj] using hcall, fun _ h => h⟩
  · cases hother : s.calls.find? j with
    | none =>
      refine ⟨call.stage, ?_, fun _ h => h⟩
      rw [Store.move, step, hother]
      exact hcall
    | some other =>
      obtain ⟨change, stage, hadv⟩ := exists_advances hother (hsound.fits j other hother) reply
      by_cases hj : id = j
      · subst hj
        obtain rfl := Option.some.inj (hcall.symm.trans hother)
        refine ⟨stage, by rw [Store.move, hadv.calls, if_pos rfl], fun outcome houtcome => ?_⟩
        -- the only step of a call that is over leaves it over
        have hnext := hadv.next
        rw [houtcome] at hnext
        cases hnext
        rfl
      · exact ⟨call.stage, by rw [Store.move, hadv.calls, if_neg hj, hcall], fun _ h => h⟩
  · exact ⟨call.stage, by rw [hfades.calls, hcall], fun _ h => h⟩

/-- A call that is over stays so. -/
theorem outcome?_run {outcome : Outcome} (hsound : s.Sound) (hlegal : Legal allows s moves)
    (h : s.outcome? id = some outcome) : (s.run moves).outcome? id = some outcome := by
  induction moves generalizing s with
  | nil => exact h
  | cons move moves ih =>
    have hone : Legal allows s [move] := ⟨hlegal.1, hlegal.2.1, trivial⟩
    refine ih (hone.sound hsound) hlegal.2.2 ?_
    obtain ⟨call, hcall, hover⟩ := outcome?_eq_some_iff.1 h
    obtain ⟨stage, hcall', hover'⟩ := exists_call_move hsound hlegal.1 hcall
    exact outcome?_eq_some_iff.2 ⟨_, hcall', hover' _ hover⟩

end Keyring.Store
