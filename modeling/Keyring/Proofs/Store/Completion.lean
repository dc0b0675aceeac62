import Keyring.Proofs.Store.Progress

/-!
# Calls that share their lock come to their end

A call that creates or reads a key shares the lock of its name with all others of that kind. As long
as nobody is to delete the key, such a call is never kept waiting, and its own steps lead it to its
end, whatever it is answered and wherever the other calls stand.

- `Stage.rank`, `Stage.unwritten`, `Next.nearer`: each step leads nearer to the end;
- `Moded`: only calls that delete a key ask for its lock alone;
- `Shared`, `ends_of_shared`: calls for a name that nobody is to delete, and that they end;
- `Quiet`, `Quiet.ends`: so does the only call of a store.
-/

namespace Keyring.Store

/-- How far some work under the lock is from its end at least. -/
def Work.rank : Work → Nat
  | .makeDirectory _ _ => 7
  | .createFile _ _ => 6
  | .write _ _ _ => 5
  | .flush _ | .read => 4
  | .sync _ | .insert _ _ | .decrypt _ | .remove => 3
  | .rollBack _ | .cacheCreated _ | .cacheRead _ | .purge _ => 2

/-- How far a stage is from the end at least. -/
def Stage.rank : Stage → Nat
  | .start => 14
  | .lookUpNew _ | .lookUp => 13
  | .record _ => 12
  | .encrypt _ => 11
  | .obtain _ => 10
  | .request _ => 9
  | .wait _ => 8
  | .work w => w.rank
  | .leave _ => 1
  | .finished _ => 0

/-- How many bytes are still to be written at a stage. -/
def Stage.unwritten : Stage → Nat
  | .work (.write _ bytes written) => bytes.length - written
  | _ => 0

/-- Calls that are not for deleting a key share its lock. -/
def Moded (s : Store) : Prop :=
  ∀ id call, s.calls.find? id = some call → s.locks.AskedBy id .exclusive →
    call.operation = .delete

/-- No call that is to delete a key is on its way. -/
def Shared (s : Store) (name : String) : Prop :=
  ∀ id call, s.calls.find? id = some call → call.name = name → call.operation = .delete →
    call.stage.isOver = true

/-- So many steps of a call, with the answers that they get. -/
def ownSteps (id : Nat) (replies : Nat → Reply) (count : Nat) : List Move :=
  (List.range count).map fun i => .step id (replies i)

section

variable {s t : Store} {id j : Nat} {name : String} {operation : Operation} {reply : Reply}
  {call : Call} {stage stage' : Stage} {change : Change} {allows : Store → Occurrence → Prop}
  {occurrences : List Occurrence} {mode : LockMode}

/-! ### Steps lead nearer to the end -/

theorem Work.rank_le (w : Work) : w.rank ≤ 7 := by
  cases w <;> simp [Work.rank]

/-- Every step leads nearer to the end, but those of a call that waits for its lock or is over. -/
theorem Next.nearer (h : Next s id name operation reply stage change stage')
    (hover : stage.isOver = false)
    (hwaits : ∀ w, stage = .wait w → s.locks.isHeldBy id = true) :
    stage'.rank < stage.rank ∨ stage'.rank = stage.rank ∧ stage'.unwritten < stage.unwritten := by
  cases h with
  | waiting hfree =>
    have hheld := hwaits _ rfl
    rw [hfree] at hheld
    cases hheld
  | @granted work => exact .inl (Nat.lt_succ_of_le work.rank_le)
  | wroteSome =>
    -- the next part is of one byte at least
    refine .inr ⟨rfl, ?_⟩
    simp only [Stage.unwritten]
    omega
  | finished => cases hover
  | _ => exact .inl (by simp [Stage.rank, Work.rank])

/-! ### Only calls that delete a key ask for its lock alone -/

/-- What another call does asks for nothing on behalf of a call. -/
theorem Sound.askedBy_of_advances (h : s.Sound) (hcall : s.calls.find? id = some call)
    (hadv : s.Advances t id call reply change stage) (hne : j ≠ id)
    (hasked : t.locks.AskedBy j mode) : s.locks.AskedBy j mode := by
  -- whoever has asked uses the lock of a name, and did so before
  have huser : ∃ n, s.user? j = some n := by
    obtain ⟨object, href, -⟩ := hasked
    obtain ⟨n, hn⟩ := (h.advances hcall hadv).agrees.used j object href
    rw [hadv.user?_eq, Function.update_of_ne hne] at hn
    exact ⟨n, hn⟩
  obtain ⟨n, hn⟩ := huser
  have hid := Store.user?_eq hcall
  rw [hadv.locks] at hasked
  cases hstage : call.stage with
  | obtain w =>
    rw [hstage] at hasked
    exact (NameLocks.askedBy_obtain_iff h.agrees hne hn call.name).1 hasked
  | request w =>
    rw [hstage] at hasked hid
    obtain ⟨object, -, href⟩ := h.agrees.current id call.name hid
    exact (NameLocks.askedBy_request_iff href hne w.mode).1 hasked
  | leave outcome =>
    rw [hstage] at hasked hid
    obtain ⟨object, -, href⟩ := h.agrees.current id call.name hid
    exact (NameLocks.askedBy_leave_iff href hne).1 hasked
  | start | lookUpNew _ | lookUp | record _ | encrypt _ | wait _ | work _ | finished _ =>
    rwa [hstage] at hasked

/-- A call that asks for its lock alone is to delete the key. -/
theorem Moded.advances_self (h : s.Moded) (hsound : s.Sound)
    (hcall : s.calls.find? id = some call) (hadv : s.Advances t id call reply change stage)
    (hasked : t.locks.AskedBy id .exclusive) : call.operation = .delete := by
  have hid := Store.user?_eq hcall
  have hsound' := hsound.advances hcall hadv
  have hfits := hsound.fits id call hcall
  have hlocks := hadv.locks
  cases hstage : call.stage with
  | obtain w =>
    rw [hstage] at hlocks hid
    rw [hlocks] at hasked
    exact absurd hasked (NameLocks.not_askedBy_obtain hsound.agrees hid call.name .exclusive)
  | request w =>
    -- it has asked in the way that its work needs
    rw [hstage] at hlocks hid hfits
    obtain ⟨object, -, href⟩ := hsound.agrees.current id call.name hid
    have hself : t.locks.AskedBy id w.mode := by
      rw [hlocks]
      exact NameLocks.askedBy_request href w.mode
    have hmode := hsound'.agrees.mode_eq_of_askedBy hself hasked
    obtain ⟨-, hfits, -⟩ := hfits
    cases w <;> first
      | exact hfits
      | cases hmode
  | leave outcome =>
    rw [hstage] at hlocks hid
    obtain ⟨object, -, href⟩ := hsound.agrees.current id call.name hid
    rw [hlocks] at hasked
    exact absurd hasked (NameLocks.not_askedBy_leave href)
  | start | lookUpNew _ | lookUp | record _ | encrypt _ | wait _ | work _ | finished _ =>
    rw [hstage] at hlocks
    rw [hlocks] at hasked
    exact h id call hcall hasked

theorem Moded.advances (h : s.Moded) (hsound : s.Sound) (hcall : s.calls.find? id = some call)
    (hadv : s.Advances t id call reply change stage) : t.Moded := by
  have hself : t.locks.AskedBy id .exclusive → call.operation = .delete :=
    h.advances_self hsound hcall hadv
  exact hadv.forall_calls hself fun j other hne hother hasked =>
    h j other hother (hsound.askedBy_of_advances hcall hadv hne hasked)

theorem moded_new (settings : Settings) (disk : Disk) (now : Nat) :
    (new settings disk now).Moded := by
  intro id call hcall
  simp [new] at hcall

theorem Moded.newCall (h : s.Moded) (hsound : s.Sound) (hfresh : s.calls.find? id = none) :
    (s.call id name operation).Moded := by
  refine forall_calls_call (fun hasked => ?_) h
  -- no call has asked under a new number
  obtain ⟨object, href, -⟩ := hasked
  obtain ⟨n, hn⟩ := hsound.agrees.used id object href
  rw [user?, hfresh] at hn
  cases hn

theorem Moded.fades (h : s.Moded) (hfades : s.Fades t) : t.Moded := by
  unfold Moded
  rw [hfades.calls, hfades.locks]
  exact h

theorem Moded.abandon (h : s.Moded) (id : Nat) : (s.abandon id).Moded := by
  intro j other hother hasked
  obtain ⟨hne, hother⟩ := find?_of_abandon hother
  refine h j other hother ?_
  change (s.locks.leave id).AskedBy j .exclusive at hasked
  cases href : s.locks.references.find? id with
  | none =>
    rwa [NameLocks.leave, NameLocks.object?_eq, href] at hasked
  | some object => exact (NameLocks.askedBy_leave_iff href hne).1 hasked

/-- In every state that a store can reach, only calls that delete a key ask for its lock alone. -/
theorem Admissible.moded (hadmissible : Admissible allows s occurrences) (hsound : s.Sound)
    (hmoded : s.Moded) : (s.occurAll occurrences).Moded := by
  refine (hadmissible.keeps (P := Moded) ?_ ?_ ?_ ?_ ?_ ?_ hsound hmoded).2
  case refine_1 => exact fun u id name operation hu h hfresh _ => h.newCall hu hfresh
  case refine_2 =>
    exact fun u id call reply change stage hu h hcall _ hadv => h.advances hu hcall hadv
  case refine_3 => exact fun u m _ h _ _ hfades => h.fades hfades
  case refine_4 => exact fun u id _ h _ => h.abandon id
  case refine_5 => exact fun u _ _ _ => moded_new u.settings u.disk u.cache.now
  case refine_6 => exact fun u disk table _ h _ => h

/-! ### To the end -/

theorem ownSteps_succ (id : Nat) (replies : Nat → Reply) (count : Nat) :
    ownSteps id replies (count + 1) =
      .step id (replies 0) :: ownSteps id (fun i => replies (i + 1)) count := by
  rw [ownSteps, List.range_succ_eq_map, List.map_cons, List.map_map]
  rfl

theorem run_ownSteps_succ (s : Store) (id : Nat) (replies : Nat → Reply) (count : Nat) :
    s.run (ownSteps id replies (count + 1)) =
      (s.run (ownSteps id replies count)).step id (replies count) := by
  rw [ownSteps, List.range_succ, List.map_append, run_append]
  rfl

/-- Whoever has asked for the lock of a name that nobody is to delete holds it. -/
theorem Shared.isHeldBy (h : s.Shared name) (hsound : s.Sound) (hserved : s.locks.Served)
    (hmoded : s.Moded) (huser : s.user? id = some name) (hasked : s.locks.AskedBy id mode) :
    s.locks.isHeldBy id = true := by
  refine hsound.agrees.isHeldBy_of_shared hserved huser hasked fun j m hj hasked' => ?_
  obtain ⟨other, hother, hname, hopen⟩ := pending_of_user hj
  cases m with
  | shared => rfl
  | exclusive =>
    rw [h j other hother hname (hmoded j other hother hasked')] at hopen
    cases hopen

theorem Shared.advances (h : s.Shared name) (hcall : s.calls.find? id = some call)
    (hadv : s.Advances t id call reply change stage) (hover : call.stage.isOver = false) :
    t.Shared name := by
  refine hadv.forall_calls (fun hname hdelete => ?_) fun j other _ => h j other
  rw [h id call hcall hname hdelete] at hover
  cases hover

/-- A call for a name that nobody is to delete ends through steps of its own, whatever it is
answered. -/
theorem ends_of_shared {s : Store} {call : Call} (hsound : s.Sound) (hserved : s.locks.Served)
    (hmoded : s.Moded) (hshared : s.Shared name) (hcall : s.calls.find? id = some call)
    (hname : call.name = name) (replies : Nat → Reply) :
    ∃ count outcome, (s.run (ownSteps id replies count)).outcome? id = some outcome := by
  cases hover : call.stage.isOver with
  | true =>
    obtain ⟨outcome, hstage⟩ := exists_finished hover
    exact ⟨0, outcome, outcome?_eq_some_iff.2 ⟨call, hcall, hstage⟩⟩
  | false =>
    obtain ⟨change, stage, hadv⟩ := exists_advances hcall (hsound.fits id call hcall) (replies 0)
    -- the lock is there when the call waits for it
    have hwaits (w : Work) (hw : call.stage = .wait w) : s.locks.isHeldBy id = true := by
      have huser := Store.user?_eq hcall
      have hasked := hsound.locked id call hcall
      rw [hw] at huser hasked
      exact hshared.isHeldBy hsound hserved hmoded (by rw [huser, hname]; rfl) hasked
    have hnearer := hadv.next.nearer hover hwaits
    have hcall' : (s.step id (replies 0)).calls.find? id = some { call with stage } := by
      rw [hadv.calls, if_pos rfl]
    obtain ⟨count, outcome, houtcome⟩ := ends_of_shared (hsound.advances hcall hadv)
      (hadv.served hserved) (hmoded.advances hsound hcall hadv)
      (hshared.advances hcall hadv hover) hcall' hname fun i => replies (i + 1)
    exact ⟨count + 1, outcome, by rwa [ownSteps_succ, run_cons]⟩
termination_by (call.stage.rank, call.stage.unwritten)
decreasing_by
  rcases hnearer with hrank | ⟨hrank, hrest⟩
  · exact .left _ _ hrank
  · rw [Prod.lex_def]
    exact .inr ⟨hrank, hrest⟩

/-- A store whose calls are all over. -/
structure Quiet (s : Store) : Prop where
  sound : s.Sound
  served : s.locks.Served
  ended : ∀ id call, s.calls.find? id = some call → call.stage.isOver = true

theorem quiet_new (settings : Settings) (disk : Disk) (now : Nat) :
    (new settings disk now).Quiet where
  sound := sound_new settings disk now
  served := NameLocks.served_empty
  ended id call hcall := by simp [new] at hcall

theorem Quiet.moded (h : s.Quiet) : s.Moded := by
  intro id call hcall hasked
  -- whoever has asked for a lock is not over
  obtain ⟨object, href, -⟩ := hasked
  obtain ⟨n, hn⟩ := h.sound.agrees.used id object href
  obtain ⟨other, hother, -, hopen⟩ := pending_of_user hn
  rw [h.ended id other hother] at hopen
  cases hopen

/-- The only call of a store ends if it is not to delete a key. -/
theorem Quiet.ends (h : s.Quiet) (hfresh : s.calls.find? id = none) (hkeeps : operation ≠ .delete)
    (replies : Nat → Reply) :
    ∃ count outcome,
      ((s.call id name operation).run (ownSteps id replies count)).outcome? id = some outcome := by
  have hcall : (s.call id name operation).calls.find? id = some ⟨name, operation, .start⟩ := by
    simp [Store.call]
  have hshared : (s.call id name operation).Shared name :=
    forall_calls_call (fun _ hdelete => absurd hdelete hkeeps) fun j other hother _ _ =>
      h.ended j other hother
  exact Store.ends_of_shared (h.sound.newCall hfresh name operation) h.served
    (h.moded.newCall h.sound hfresh) hshared hcall rfl replies

/-- A call for a name that nobody is to delete ends in every state that a store can reach. -/
theorem Lawful.ends_of_shared {settings : Settings} {disk : Disk} {now : Nat}
    {allows : Store → Incident → Prop} {incidents : List Incident}
    (hlawful : Lawful allows (new settings disk now) incidents)
    (hshared : ((new settings disk now).befallAll incidents).Shared name)
    (hcall : ((new settings disk now).befallAll incidents).calls.find? id = some call)
    (hname : call.name = name) (replies : Nat → Reply) :
    ∃ count outcome, (((new settings disk now).befallAll incidents).run
      (ownSteps id replies count)).outcome? id = some outcome := by
  have hadmissible := hlawful.admissible
  obtain ⟨hsound, hserved⟩ := hadmissible.served (sound_new settings disk now)
    NameLocks.served_empty
  have hmoded := hadmissible.moded (sound_new settings disk now) (moded_new settings disk now)
  rw [occurAll_map_incident] at hsound hserved hmoded
  exact Store.ends_of_shared hsound hserved hmoded hshared hcall hname replies

end

end Keyring.Store
