import Keyring.Proofs.Store.Records

/-!
# Deleted keys stay deleted

A call that deletes a key removes the record first and the name from the cache then, with its lock
held alone for both. So from the second step on nobody finds the secret, in the cache or in the
backend, until a call makes a new entry: whoever missed the cache before has not read yet.

* `MakesEntry` — a move in which a call makes the entry of a key in the backend;
* `Removed` — a call has removed the record and is to remove the name from the cache, or has done
  so;
* `Freed` — nothing is held under a name, and no call can bring it back;
* `deleted_stays_deleted` — from the removal on, for every run.
-/

namespace Keyring.Store

/-- Whether a call that goes from one stage to another makes its entry in the backend. -/
def Stage.enters : Stage → Stage → Bool
  | .work (.createFile _ _), .work (.write _ _ _) => true
  | .work (.insert _ _), .work (.cacheCreated _) => true
  | _, _ => false

/-- A move in which a call makes the entry of a name in the backend. -/
def MakesEntry (name : String) (s : Store) : Move → Prop
  | .step id reply => ∃ call ∈ s.calls.find? id, call.name = name ∧
    ∃ stage ∈ (s.step id reply).stage? id, call.stage.enters stage = true
  | _ => False

instance decidableMakesEntry (name : String) (s : Store) :
    (m : Move) → Decidable (MakesEntry name s m)
  | .step id reply =>
    inferInstanceAs (Decidable (∃ call ∈ s.calls.find? id, call.name = name ∧
      ∃ stage ∈ (s.step id reply).stage? id, call.stage.enters stage = true))
  | .call _ _ _ | .wait _ | .beginSweep _ | .finishSweep _ | .evict _ => isFalse id

/-- How a call ends that deletes a key, by what became of the removal of the record. -/
def Removal.outcome : Removal → Outcome
  | .done | .missing => .ok .done
  | .failed fault => .error (.io fault)

/-- A call has removed a record and is bound to an outcome. -/
def Removed (s : Store) (id : Nat) (name : String) (outcome : Outcome) : Prop :=
  ∃ call, s.calls.find? id = some call ∧ call.name = name ∧
    (call.stage = .work (.purge outcome) ∨ call.stage = .leave outcome ∨
      call.stage = .finished outcome)

/-- Neither does a call at a stage bring back what is not held, nor has it found it, unless it was
over before. -/
def Stage.Misses (ended : Prop) (operation : Operation) : Stage → Prop
  | .work (.write _ _ _) | .work (.flush _) | .work (.sync _) | .work (.rollBack _)
  | .work (.cacheCreated _) | .work (.decrypt _) | .work (.cacheRead _) => False
  | .leave outcome | .finished outcome =>
    operation = .get → ¬ended →
      outcome = .error .keyNotFound ∨ ∃ fault, outcome = .error (.io fault)
  | _ => True

/-- Nothing is held under a name, and no call brings it back or has found it, but for those that
were over before. -/
structure Freed (ended : Nat → Prop) (name : String) (s : Store) : Prop where
  valid : KeyName.Valid name
  record : s.record? name = none
  cached : s.cached? name = none
  misses : ∀ id call, s.calls.find? id = some call → call.name = name →
    call.stage.Misses (ended id) call.operation

variable {s t : Store} {id j : Nat} {name : String} {operation : Operation} {reply : Reply}
  {call other : Call} {stage stage' : Stage} {change : Change} {outcome : Outcome} {ended : Prop}
  {moves : List Move} {allows : Store → Move → Prop}

/-! ### The steps of one call -/

/-- A call that is not at work changes nothing that is held under its name. -/
theorem Next.change_eq_nothing (h : Next s id name operation reply stage change stage')
    (hstage : ¬stage.AtWork) : change = .nothing := by
  cases h <;> first | rfl | exact absurd trivial hstage

/-- If nothing is held under a name, a call that does not make its entry changes that in no step,
and finds nothing. -/
theorem Next.misses (h : Next s id name operation reply stage change stage')
    (hfits : stage.Fits s.settings name operation) (hvalid : KeyName.Valid name)
    (hrecord : s.record? name = none) (hcached : s.cached? name = none)
    (hmisses : stage.Misses ended operation) (henters : stage.enters stage' = false) :
    stage'.Misses ended operation ∧ change.recordAfter none = none ∧
      change.cachedAfter none = none := by
  cases h with
  | refused herror =>
    rw [KeyName.validate_eq_ok_iff.2 hvalid] at herror
    cases herror
  | hit hheld =>
    rw [hcached] at hheld
    cases hheld
  -- whoever creates or deletes the key finds nothing
  | taken | notSealed =>
    obtain ⟨-, rfl⟩ := hfits
    exact ⟨(fun hget => by cases hget), rfl, rfl⟩
  | directoryFailed | fileExists | fileFailed | insertTaken =>
    obtain ⟨-, rfl, -⟩ := hfits
    exact ⟨(fun hget => by cases hget), rfl, rfl⟩
  -- no call begins with work that stores or has read something
  | @granted work =>
    obtain ⟨-, -, hfirst⟩ := hfits
    exact ⟨by cases work <;> trivial, rfl, rfl⟩
  | fileMade | inserted => cases henters
  | readNothing => exact ⟨fun _ _ => .inl rfl, rfl, rfl⟩
  | readFailed => exact ⟨fun _ _ => .inr ⟨_, rfl⟩, rfl, rfl⟩
  -- there is no record to be read
  | readSecret hfound | readMalformed hfound | readCiphertext hfound | readUnsealable hfound =>
    rw [hrecord] at hfound
    cases hfound
  | purged =>
    obtain ⟨-, rfl⟩ := hfits
    exact ⟨(fun hget => by cases hget), rfl, rfl⟩
  | left | finished => exact ⟨hmisses, rfl, rfl⟩
  | _ => first
    | exact ⟨trivial, rfl, rfl⟩
    | exact hmisses.elim

/-! ### Runs -/

/-- No other call changes the record of a name while a call has its lock alone. -/
theorem Advances.record_of_exclusive (hadv : s.Advances t j other reply change stage)
    (hsound : s.Sound) (hcall : s.calls.find? id = some call)
    (hother : s.calls.find? j = some other) {work : Work} (hwork : call.stage = .work work)
    (hmode : work.mode = .exclusive) (hne : j ≠ id) :
    t.record? call.name = s.record? call.name := by
  rw [hadv.record]
  split
  case isTrue hname =>
    -- a call of the same name is not at work, and changes nothing
    have hatWork : ¬other.stage.AtWork := fun hatWork =>
      hne (hsound.alone hcall hother hwork hmode hatWork hname).symm
    rw [hadv.next.change_eq_nothing hatWork]
    rfl
  case isFalse => rfl

/-- A call that has removed a record goes on to the outcome that it is bound to. -/
theorem Removed.advances (h : Removed s id name outcome) (hcall : s.calls.find? j = some call)
    (hadv : s.Advances t j call reply change stage) : Removed t id name outcome := by
  obtain ⟨deleting, hdeleting, hname, hstage⟩ := h
  by_cases hj : id = j
  · subst hj
    obtain rfl := Option.some.inj (hcall.symm.trans hdeleting)
    refine ⟨{ call with stage }, by rw [hadv.calls, if_pos rfl], hname, ?_⟩
    have hnext := hadv.next
    rcases hstage with hstage | hstage | hstage <;> rw [hstage] at hnext <;> cases hnext
    · exact .inr (.inl rfl)
    · exact .inr (.inr rfl)
    · exact .inr (.inr rfl)
  · exact ⟨deleting, by rw [hadv.calls, if_neg hj, hdeleting], hname, hstage⟩

/-- After a call has removed a record, it ends as it is bound to, and if the record is gone it stays
away until the call has removed the name from the cache. -/
theorem Removed.run {gone : Prop} (hsound : s.Sound) (hlegal : Legal allows s moves)
    (h : Removed s id name outcome) (hrecord : gone → s.record? name = none) :
    Removed (s.run moves) id name outcome ∧
      ((s.run moves).stage? id = some (.work (.purge outcome)) → gone →
        (s.run moves).record? name = none) := by
  refine (hlegal.keeps (P := fun s => Removed s id name outcome ∧
    (s.stage? id = some (.work (.purge outcome)) → gone → s.record? name = none)) ?_ ?_ ?_ hsound
    ⟨h, fun _ => hrecord⟩).2
  case refine_1 =>
    rintro s j n operation - ⟨⟨call, hcall, hrest⟩, hrecord⟩ hfresh -
    have hj : id ≠ j := by
      rintro rfl
      rw [hfresh] at hcall
      cases hcall
    refine ⟨⟨call, by simpa [Store.call, hj] using hcall, hrest⟩, fun hpurge => hrecord ?_⟩
    simpa [stage?, Store.call, hj] using hpurge
  case refine_2 =>
    rintro s j call reply change stage hsound ⟨hremoved, hrecord⟩ hcall - hadv
    refine ⟨hremoved.advances hcall hadv, fun hpurge => ?_⟩
    obtain ⟨deleting, hdeleting, rfl, hstage⟩ := hremoved
    have hj : j ≠ id := by
      -- the step of the call itself would be the one that removes the name from the cache
      rintro rfl
      obtain rfl := Option.some.inj (hcall.symm.trans hdeleting)
      rw [stage?, hadv.calls, if_pos rfl] at hpurge
      obtain rfl : stage = .work (.purge outcome) := Option.some.inj hpurge
      have hnext := hadv.next
      rcases hstage with hstage | hstage | hstage <;> rw [hstage] at hnext <;> cases hnext
    rw [stage?, hadv.calls, if_neg hj.symm, hdeleting] at hpurge
    have hstage' := Option.some.inj hpurge
    rw [hadv.record_of_exclusive hsound hdeleting hcall hstage' rfl hj]
    exact hrecord (by rw [stage?, hdeleting]; exact hpurge)
  case refine_3 =>
    rintro s t - ⟨hremoved, hrecord⟩ hfades
    rw [hfades.record?, stage?, Removed, hfades.calls]
    exact ⟨hremoved, hrecord⟩

/-- A call that removes a name from the cache, with no record left, frees the name. -/
theorem freed_purge (hsound : s.Sound) (hcall : s.calls.find? id = some call)
    (hstage : call.stage = .work (.purge outcome)) (hrecord : s.record? call.name = none)
    (reply : Reply) :
    Freed (fun j => ∃ o, (s.step id reply).outcome? j = some o) call.name (s.step id reply) := by
  have hfits := hsound.fits id call hcall
  obtain ⟨change, stage, hadv⟩ := exists_advances hcall hfits reply
  have hnext := hadv.next
  rw [hstage] at hnext hfits
  cases hnext
  have hcached : (s.step id reply).cached? call.name = none := by
    rw [hadv.cached, if_pos rfl]
    rfl
  have hgone : (s.step id reply).record? call.name = none := by
    rw [hadv.record, if_pos rfl]
    exact hrecord
  refine ⟨hfits.1, hgone, hcached, ?_⟩
  refine hadv.forall_calls (fun _ hget => ?_) fun j other hne hother hname => ?_
  · rw [hfits.2] at hget
    cases hget
  · -- no other call of this name is at work
    have hatWork : ¬other.stage.AtWork := fun hatWork =>
      hne (hsound.alone hcall hother hstage rfl hatWork hname.symm).symm
    cases hother' : other.stage with
    | work w => exact absurd (by rw [hother']; trivial) hatWork
    | leave o => exact absurd (by rw [hother']; trivial) hatWork
    | finished o =>
      -- a call that is over was so before
      intro _ hover
      refine absurd ⟨o, ?_⟩ hover
      rw [outcome?, stage?, hadv.calls, if_neg hne, hother, Option.map_some, hother']
    | start | lookUpNew _ | lookUp | record _ | encrypt _ | obtain _ | request _ | wait _ => trivial

/-- A name stays free until a call makes its entry. -/
theorem Freed.run {ended : Nat → Prop} (hsound : s.Sound)
    (hlegal : Legal (fun s m => ¬MakesEntry name s m) s moves) (h : Freed ended name s) :
    Freed ended name (s.run moves) := by
  refine (hlegal.keeps ?_ ?_ ?_ hsound h).2
  · intro s j n operation _ hinv _ _
    exact ⟨hinv.valid, hinv.record, hinv.cached, forall_calls_call (fun _ => trivial) hinv.misses⟩
  · intro s j call reply change stage hsound hinv hcall hentry hadv
    by_cases hname : name = call.name
    · subst hname
      -- the step makes no entry, so that it finds nothing and changes nothing
      have henters : call.stage.enters stage = false := by
        by_contra henters
        refine hentry ⟨call, hcall, rfl, stage, ?_, by simpa using henters⟩
        simp [stage?, hadv.calls]
      obtain ⟨hmisses, hrecord, hcached⟩ := hadv.next.misses (hsound.fits j call hcall) hinv.valid
        hinv.record hinv.cached (hinv.misses j call hcall rfl) henters
      refine ⟨hinv.valid, ?_, ?_, hadv.forall_calls (fun _ => hmisses)
        fun k other _ => hinv.misses k other⟩
      · rw [hadv.record, if_pos rfl, hinv.record, hrecord]
      · rw [hadv.cached, if_pos rfl, hinv.cached, hcached]
    · refine ⟨hinv.valid, ?_, ?_, hadv.forall_calls (fun heq => absurd heq.symm hname)
        fun k other _ => hinv.misses k other⟩
      · rw [hadv.record, if_neg hname, hinv.record]
      · rw [hadv.cached, if_neg hname, hinv.cached]
  · intro s t _ hinv hfades
    have hmisses := hinv.misses
    rw [← hfades.calls] at hmisses
    refine ⟨hinv.valid, by rw [hfades.record?, hinv.record], ?_, hmisses⟩
    cases hcached : t.cached? name with
    | none => rfl
    | some secret => rw [← hfades.cached name secret hcached, hinv.cached]

/-- Removing the record binds a call to its outcome. -/
theorem removed_remove (hsound : s.Sound) (hcall : s.calls.find? id = some call)
    (hstage : call.stage = .work .remove) (reply : Reply) :
    Removed (s.step id reply) id call.name (s.removal call.name reply.device).outcome ∧
      (s.removal call.name reply.device = .done ∨
          s.removal call.name reply.device = .missing ∧ s.record? call.name = none →
        (s.step id reply).record? call.name = none) := by
  obtain ⟨change, stage, hadv⟩ := exists_advances hcall (hsound.fits id call hcall) reply
  have hremoved (hpurge : stage = .work (.purge (s.removal call.name reply.device).outcome)) :
      Removed (s.step id reply) id call.name (s.removal call.name reply.device).outcome :=
    ⟨{ call with stage }, by rw [hadv.calls, if_pos rfl], rfl, .inl hpurge⟩
  have hnext := hadv.next
  have hrecord := hadv.record call.name
  rw [hstage] at hnext
  rw [if_pos rfl] at hrecord
  cases hnext with
  | removed h => exact ⟨hremoved (by rw [h]; rfl), fun _ => hrecord⟩
  | removedNothing h =>
    refine ⟨hremoved (by rw [h]; rfl), fun hgone => ?_⟩
    rcases hgone with hdone | ⟨-, hnone⟩
    · rw [h] at hdone
      cases hdone
    · rw [hrecord]
      exact hnone
  | notRemoved h =>
    refine ⟨hremoved (by rw [h]; rfl), fun hgone => ?_⟩
    rcases hgone with hdone | ⟨hmissing, -⟩
    · rw [h] at hdone
      cases hdone
    · rw [h] at hmissing
      cases hmissing

/-- **No resurrection.** Let a call remove the record of a key and then, after any moves of others,
the name from the cache. Right after that the name is not cached, and the call ends as the removal
went. If the removal succeeded, or there was nothing to remove and no file stands where the key's
file would be, then the name is not cached until some call makes its entry, and every call that
reads the key, was not over before and is over by then has found no key or a failure of the file
system. -/
theorem deleted_stays_deleted {settings : Settings} {disk : Disk} {now : Nat}
    {before between : List Move} {removing purging : Reply}
    (hbefore : Legal (fun _ _ => True) (new settings disk now) before)
    (hs : s = (new settings disk now).run before)
    (hcall : s.calls.find? id = some call) (hremove : call.stage = .work .remove)
    (hbetween : Legal (fun _ _ => True) (s.step id removing) between)
    (ht : t = (s.step id removing).run between)
    (hpurge : t.stage? id = some (.work (.purge outcome))) :
    (t.step id purging).cached? call.name = none ∧
    (∀ after, Legal (fun _ _ => True) (t.step id purging) after →
      ∀ o, ((t.step id purging).run after).outcome? id = some o →
        o = (s.removal call.name removing.device).outcome) ∧
    (s.removal call.name removing.device = .done ∨
        s.removal call.name removing.device = .missing ∧ s.record? call.name = none →
      ∀ after, Legal (fun s m => ¬MakesEntry call.name s m) (t.step id purging) after →
        ((t.step id purging).run after).cached? call.name = none ∧
        ∀ j other, ((t.step id purging).run after).calls.find? j = some other →
          other.name = call.name → other.operation = .get →
          (t.step id purging).outcome? j = none → ∀ o, other.stage = .finished o →
            o = .error .keyNotFound ∨ ∃ fault, o = .error (.io fault)) := by
  have hsound : s.Sound := hs ▸ hbefore.sound (sound_new settings disk now)
  obtain ⟨hremoved, hgone⟩ := removed_remove hsound hcall hremove removing
  have hsound' : (s.step id removing).Sound :=
    hsound.step hcall removing
  -- until the call removes the name from the cache, nobody else is at work on it
  obtain ⟨hbound, hrecord⟩ := hremoved.run hsound' hbetween hgone
  rw [← ht] at hbound hrecord
  have htsound : t.Sound := ht ▸ hbetween.sound hsound'
  have hbound' := hbound
  obtain ⟨purger, hpurger, hname, hstages⟩ := hbound'
  have hstage : purger.stage = .work (.purge outcome) := by
    rw [stage?, hpurger] at hpurge
    exact Option.some.inj hpurge
  have houtcome : outcome = (s.removal call.name removing.device).outcome := by
    rcases hstages with h | h | h <;> rw [hstage] at h <;> cases h
    rfl
  subst houtcome
  -- the step that removes the name from the cache frees it
  have husound : (t.step id purging).Sound := htsound.step hpurger purging
  obtain ⟨change, stage, hadv⟩ := exists_advances hpurger (htsound.fits id purger hpurger) purging
  refine ⟨?_, fun after hafter o ho => ?_, fun hdone after hafter => ?_⟩
  · have hnext := hadv.next
    rw [hstage] at hnext
    cases hnext
    rw [hadv.cached, if_pos hname.symm]
    rfl
  · obtain ⟨⟨ended, hended, -, hstages⟩, -⟩ := (hbound.advances hpurger hadv).run
      husound hafter fun h : False => h.elim
    obtain ⟨_, hended', hover⟩ := outcome?_eq_some_iff.1 ho
    obtain rfl := Option.some.inj (hended.symm.trans hended')
    rcases hstages with h | h | h <;> rw [hover] at h <;> cases h
    rfl
  · have hfreed := freed_purge htsound hpurger hstage (by rw [hname]; exact hrecord hpurge hdone)
      purging
    rw [hname] at hfreed
    replace hfreed := hfreed.run husound hafter
    refine ⟨hfreed.cached, fun j other hother hsame hget hover o ho => ?_⟩
    have hmisses := hfreed.misses j other hother hsame
    rw [ho] at hmisses
    exact hmisses hget (by simp [hover])

namespace Sample

/-- A new store without master key that keeps its files in a directory, on a disk that holds the
file of one key. -/
def filesIn (directory : String) : Store :=
  new (settings (.files directory) none)
    (((Disk.empty [] 0).put ["keys"] (.directory 0o700)).put ["keys", "a"]
      (.file 0o600 (plainRecord secret))) 0

/-- A call is about to remove the record of the key. -/
def untilRemoval : List Move := .call 1 "a" .delete :: steps 1 4

/-- Another call comes to read the key, and waits for its lock. -/
def readMeanwhile : List Move := .call 2 "a" .get :: steps 2 5

/-- The deleting call ends, and the waiting one goes on. -/
def readAfterwards : List Move := steps 1 1 ++ steps 2 3

/-- The deleting call ends, a third one fails to create the key, and a fourth one reads it. -/
def createAfterwards : List Move :=
  steps 1 1 ++ .call 3 "a" (.create secret) :: steps 3 9 ++ .call 4 "a" .get :: steps 4 8

end Sample

/-- A call that waits while the key is deleted finds none. -/
theorem deleted_stays_deleted_readMeanwhile :
    let s := (Sample.filesIn "keys").run Sample.untilRemoval
    let t := (s.step 1 (Sample.reply 0)).run Sample.readMeanwhile
    let u := (t.step 1 (Sample.reply 0)).run Sample.readAfterwards
    u.cached? "a" = none ∧ u.outcome? 2 = some (.error .keyNotFound) := by
  intro s t u
  have hbefore : Legal (fun _ _ => True) (Sample.filesIn "keys") Sample.untilRemoval := by
    decide +kernel
  have hcall : s.calls.find? 1 = some ⟨"a", .delete, .work .remove⟩ := by decide +kernel
  have hbetween : Legal (fun _ _ => True) (s.step 1 (Sample.reply 0)) Sample.readMeanwhile := by
    decide +kernel
  have hpurge : t.stage? 1 = some (.work (.purge (.ok .done))) := by decide +kernel
  have hdone : s.removal "a" (Sample.reply 0).device = .done := by decide +kernel
  have hafter : Legal (fun s m => ¬MakesEntry "a" s m) (t.step 1 (Sample.reply 0))
      Sample.readAfterwards := by decide +kernel
  obtain ⟨hcached, -⟩ := (deleted_stays_deleted hbefore rfl hcall rfl hbetween rfl hpurge).2.2
    (.inl hdone) _ hafter
  exact ⟨hcached, by decide +kernel⟩

/-- In a directory whose path leads through a missing one and back, a file may stand where the
removal finds nothing. It is found again after a call that could not make an entry of its own has
made the missing directory. -/
theorem not_deleted_through_missing_directory :
    let s := (Sample.filesIn "x/../keys").run Sample.untilRemoval
    let t := s.step 1 (Sample.reply 0)
    let u := t.step 1 (Sample.reply 0)
    s.stage? 1 = some (.work .remove) ∧ s.removal "a" (Sample.reply 0).device = .missing ∧
      t.stage? 1 = some (.work (.purge (.ok .done))) ∧
      Legal (fun s m => ¬MakesEntry "a" s m) u Sample.createAfterwards ∧
      (u.run Sample.createAfterwards).outcome? 4 = some (.ok (.secret Sample.secret)) := by
  decide +kernel

end Keyring.Store
