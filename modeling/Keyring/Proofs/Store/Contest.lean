import Keyring.Proofs.Store.Completion
import Keyring.Proofs.Store.Free
import Keyring.Proofs.Store.Getting

/-!
# Calls that are to create one key

Calls that are to create the same key share its lock, so that all of them may have their record
ready before the first one stores it. The one that makes the file of the key, or puts its record
into the table, has won; the others find that the key exists.

- `Absent`: a key that there is not, and for which no call is on its way;
- `Contends`: moves in which nobody comes to delete the key, and no step for it fails;
- `Sealed`, `NotSealed`: what a call has made of its secret in a run;
- `Vacant`, `Won`: what holds before a call has won, and from then on;
- `Contested`, `Legal.contested`: one of them does after a run;
- `Legal.won`: who has won goes on having won.
-/

namespace Keyring.Store

/-- There is no key of a name, nor anything else that takes its place, and no call for it is on its
way. -/
structure Absent (s : Store) (name : String) : Prop where
  record : s.record? name = none
  cached : s.cached? name = none
  free : s.Free name
  settled : s.Settled name

/-- A move in which nobody comes to delete a key, and no step for it fails because of the file
system. -/
def Contends (name : String) (s : Store) : Move → Prop
  | .call _ n operation => n = name → operation ≠ .delete
  | .step id reply => ∀ call ∈ s.calls.find? id, call.name = name →
    ∀ stage ∈ (s.step id reply).stage? id, stage.isFailure = false
  | _ => True

instance decidableAbsent (s : Store) (name : String) : Decidable (s.Absent name) :=
  decidable_of_iff
    (s.record? name = none ∧ s.cached? name = none ∧ s.Free name ∧ s.Settled name)
    ⟨fun h => ⟨h.1, h.2.1, h.2.2.1, h.2.2.2⟩, fun h => ⟨h.record, h.cached, h.free, h.settled⟩⟩

instance decidableContends (name : String) (s : Store) : (m : Move) → Decidable (Contends name s m)
  | .call _ n operation => inferInstanceAs (Decidable (n = name → operation ≠ .delete))
  | .step id reply => inferInstanceAs (Decidable (∀ call ∈ s.calls.find? id, call.name = name →
      ∀ stage ∈ (s.step id reply).stage? id, stage.isFailure = false))
  | .wait _ | .beginSweep _ | .finishSweep _ | .evict _ => isTrue trivial

/-- A call that was made since. -/
structure Since (o s : Store) (id : Nat) (call : Call) : Prop where
  unknown : o.calls.find? id = none
  found : s.calls.find? id = some call

/-- The record that a call has made of its secret in a run: the plain one or, with a master key,
that of the ciphertext which the key management system has given for it. -/
def Sealed (o : Store) (moves : List Move) (id : Nat) (secret : Secret) (record : List UInt8) :
    Prop :=
  (o.settings.masterKey = none ∧ record = plainRecord secret) ∨
    o.settings.masterKey ≠ none ∧ ∃ before reply c, before ++ [.step id reply] <+: moves ∧
      (o.run before).stage? id = some (.encrypt secret) ∧ reply.encrypted = .ok c ∧
      record = c.toRecord

/-- The key management system has failed to encrypt the secret of a call in a run. -/
def NotSealed (o : Store) (moves : List Move) (id : Nat) : Prop :=
  ∃ before reply secret fault, before ++ [.step id reply] <+: moves ∧
    (o.run before).stage? id = some (.encrypt secret) ∧ reply.encrypted = .error fault

/-- What is held of a record at a stage of the call that stores it: as much as the call has written,
and all of it when the call has written it. -/
def Stage.HasStored (record : List UInt8) (held : Option (List UInt8)) : Stage → Prop
  | .work (.write _ bytes written) =>
    bytes = record ∧ written < record.length ∧ held = some (record.take written)
  | .work (.flush _) | .work (.sync _) | .work (.cacheCreated _) => held = some record
  | .leave outcome | .finished outcome => outcome = .ok .done ∧ held = some record
  | _ => False

/-- A stage of a call that is to create a key and stores none: it is on its way, or it has found
that the name is taken, or its secret could not be encrypted. -/
def Stage.Loses (taken : Prop) : Stage → Prop
  | .work w => w.isStoring = false
  | .leave outcome => taken ∧ outcome = .error .keyExists
  | .finished outcome =>
    taken ∧ outcome = .error .keyExists ∨ outcome = .error (.internal "cannot encrypt key")
  | _ => True

/-- No call has stored a record yet, and nothing is known of the key. -/
structure Vacant (o s : Store) (name : String) : Prop where
  record : s.record? name = none
  cached : s.cached? name = none
  idle : ∀ id w, s.WorksOn name id w → w.isStoring = false ∧ w.hasRead = false
  loses : ∀ id secret stage, Since o s id ⟨name, .create secret, stage⟩ → stage.Loses False

/-- A call has won and stores its record, or has done so; all others that are to create the key
store nothing. -/
structure Won (o s : Store) (name : String) (id : Nat) (secret : Secret) (record : List UInt8) :
    Prop where
  stores : ∃ stage, Since o s id ⟨name, .create secret, stage⟩ ∧
    stage.HasStored record (s.record? name)
  loses : ∀ j other stage, j ≠ id → Since o s j ⟨name, .create other, stage⟩ → stage.Loses True

/-- Calls that were made since contend for a key, and calls that were made before do so no more. -/
structure Contested (o : Store) (moves : List Move) (s : Store) (name : String) : Prop where
  settings : s.settings = o.settings
  free : s.Free name
  kept : ∀ id, o.calls.find? id ≠ none → s.calls.find? id ≠ none
  old : ∀ id call, s.calls.find? id = some call → call.name = name → o.calls.find? id ≠ none →
    call.stage.isOver = true
  operation : ∀ id call, Since o s id call → call.name = name → call.operation ≠ .delete
  /-- The record that a call is to store is the one that it has made. -/
  brings : ∀ id call, Since o s id call → call.name = name →
    call.stage.Brings o.settings (Sealed o moves id)
  /-- A call ends in an internal error only if its secret could not be encrypted. -/
  refused : ∀ id call, Since o s id call → call.name = name →
    call.stage.verdict? = some (.error (.internal "cannot encrypt key")) → NotSealed o moves id
  state : Vacant o s name ∨
    ∃ id secret record, Won o s name id secret record ∧ Sealed o moves id secret record

section

variable {o s t : Store} {id j w : Nat} {name : String} {operation : Operation}
  {reply : Reply} {call : Call} {stage stage' : Stage} {change : Change} {secret : Secret}
  {record : List UInt8} {moves : List Move} {move : Move} {taken : Prop}

/-! ### What a call has made of its secret -/

theorem Sealed.length_pos (h : Sealed o moves id secret record) : 0 < record.length := by
  rcases h with ⟨-, rfl⟩ | ⟨-, -, -, c, -, -, -, rfl⟩
  · rw [length_plainRecord]
    exact Nat.mul_pos Nat.two_pos (List.length_pos_iff.2 secret.ne_nil)
  · exact c.length_toRecord_pos

theorem Sealed.append (h : Sealed o moves id secret record) (move : Move) :
    Sealed o (moves ++ [move]) id secret record := by
  refine h.imp_right fun ⟨hkey, before, reply, c, hprefix, hrest⟩ => ?_
  exact ⟨hkey, before, reply, c, hprefix.trans (List.prefix_append _ _), hrest⟩

theorem NotSealed.append (h : NotSealed o moves id) (move : Move) :
    NotSealed o (moves ++ [move]) id := by
  obtain ⟨before, reply, secret, fault, hprefix, hrest⟩ := h
  exact ⟨before, reply, secret, fault, hprefix.trans (List.prefix_append _ _), hrest⟩

/-- A call whose secret could not be encrypted ends in an internal error. -/
theorem NotSealed.outcome (h : NotSealed o moves id) {allows : Store → Move → Prop}
    (hsound : o.Sound) (hlegal : Legal allows o moves) :
    (o.run moves).outcome? id = some (.error (.internal "cannot encrypt key")) := by
  obtain ⟨before, reply, secret, fault, ⟨rest, rfl⟩, hstage, hfault⟩ := h
  obtain ⟨hmoves, hrest⟩ := legal_append.1 hlegal
  have hbefore := ((legal_append.1 hmoves).1).sound hsound
  rw [run_append]
  refine outcome?_run (hmoves.sound hsound) hrest ?_
  rw [run_append, run_cons, run_nil, Store.move]
  obtain ⟨call, hcall, hencrypts⟩ := Option.map_eq_some_iff.1 hstage
  obtain ⟨change, stage, hadv⟩ := exists_advances hcall (hbefore.fits id call hcall) reply
  have hnext := hadv.next
  rw [hencrypts] at hnext
  refine outcome?_eq_some_iff.2 ⟨_, by rw [hadv.calls, if_pos rfl], ?_⟩
  cases hnext with
  | sealed hc => cases hfault.symm.trans hc
  | notSealed => rfl

/-! ### Steps of calls that contend -/

/-- A call that is to create a key and stores none does not store one after its step, either, or
there was none. -/
theorem Next.loses (h : Next s id name operation reply stage change stage')
    (hfits : stage.Fits s.settings name operation) (hcreate : operation = .create secret)
    (hvalid : KeyName.Valid name) (hfaultless : stage'.isFailure = false)
    (hloses : stage.Loses taken) (hcached : s.cached? name ≠ none → taken)
    (hrecord : s.record? name ≠ none → taken)
    (hexists : ∀ x bytes, stage = .work (.createFile x bytes) →
      stage' = .leave (.error .keyExists) → taken) :
    stage'.Loses taken ∨ s.record? name = none ∧ ∃ w, stage' = .work w ∧ w.isStoring = true := by
  subst hcreate
  cases h with
  | refused herror => cases (KeyName.validate_eq_ok_iff.2 hvalid).symm.trans herror
  | taken hheld => exact .inl (.inl ⟨hcached (by simp [hheld]), rfl⟩)
  | notSealed => exact .inl (.inr rfl)
  | granted => exact .inl (idle_of_first hfits.2.2).1
  | directoryMade => exact .inl rfl
  | fileMade hnone | inserted hnone => exact .inr ⟨hnone, _, rfl, rfl⟩
  | fileExists => exact .inl ⟨hexists _ _ rfl rfl, rfl⟩
  | insertTaken hheld => exact .inl ⟨hrecord (by simp [hheld]), rfl⟩
  | directoryFailed | fileFailed => cases hfaultless
  | left => exact .inl (.inl hloses)
  | finished => exact .inl hloses
  | wroteSome | wroteAll | writeFailed | flushed | flushFailed | synced | syncFailed | rolledBack
  | notRolledBack | cachedCreated => cases hloses
  | hit | readNothing | readFailed | readSecret | readMalformed | readCiphertext | readUnsealable
  | opened | notOpened | cachedRead | removed | removedNothing | notRemoved | purged =>
    simp [Stage.Fits, Work.Fits] at hfits
  | get _ hget => cases hget
  | delete _ hdelete => cases hdelete
  | _ => exact .inl trivial

/-- Without a record, and with nothing cached, a step leaves it at that, or stores the record that
its call has made. -/
theorem Next.vacant_cases (h : Next s id name operation reply stage change stage')
    (hfits : stage.Fits s.settings name operation) (hrecord : s.record? name = none)
    (hcached : s.cached? name = none)
    (hidle : ∀ w, stage = .work w → w.isStoring = false ∧ w.hasRead = false)
    (hdelete : operation = .delete → stage.isOver = true)
    (hpos : ∀ x bytes, stage.toStore? = some (x, bytes) → 0 < bytes.length) :
    (change.recordAfter (s.record? name) = none ∧ change.cachedAfter (s.cached? name) = none ∧
        ∀ w, stage' = .work w → w.isStoring = false ∧ w.hasRead = false) ∨
      ∃ x bytes, stage.toStore? = some (x, bytes) ∧ operation = .create x ∧
        stage'.HasStored bytes (change.recordAfter (s.record? name)) := by
  cases h with
  | granted =>
    refine .inl ⟨hrecord, hcached, fun w hw => ?_⟩
    obtain rfl := Stage.work.inj hw
    exact idle_of_first hfits.2.2
  | directoryMade =>
    refine .inl ⟨hrecord, hcached, fun w hw => ?_⟩
    obtain rfl := Stage.work.inj hw
    exact ⟨rfl, rfl⟩
  | @fileMade x bytes => exact .inr ⟨x, bytes, rfl, hfits.2.1, rfl, hpos x bytes rfl, rfl⟩
  | @inserted x bytes => exact .inr ⟨x, bytes, rfl, hfits.2.1, rfl⟩
  | insertTaken hheld => cases hrecord.symm.trans hheld
  | readSecret hsome | readMalformed hsome | readCiphertext hsome | readUnsealable hsome =>
    cases hrecord.symm.trans hsome
  | wroteSome | wroteAll | writeFailed | flushed | flushFailed | synced | syncFailed | rolledBack
  | notRolledBack | cachedCreated => cases (hidle _ rfl).1
  | opened | notOpened | cachedRead => cases (hidle _ rfl).2
  | removed | removedNothing | notRemoved | purged => cases hdelete hfits.2
  | _ => exact .inl ⟨hrecord, hcached, by simp⟩

theorem Stage.Loses.mono {taken' : Prop} (h : stage.Loses taken) (htaken : taken → taken') :
    stage.Loses taken' := by
  cases stage with
  | leave outcome => exact ⟨htaken h.1, h.2⟩
  | finished outcome => exact h.imp_left fun hlost => ⟨htaken hlost.1, hlost.2⟩
  | _ => exact h

/-- Before a call has won, each step leaves it at that, or its call wins. -/
theorem Vacant.advances (h : Vacant o s call.name) (hsound : s.Sound) (hfree : s.Free call.name)
    (hvalid : KeyName.Valid call.name) (hcall : s.calls.find? id = some call)
    (hnew : call.stage.isOver = false → o.calls.find? id = none ∧ call.operation ≠ .delete)
    (hpos : ∀ x bytes, call.stage.toStore? = some (x, bytes) → 0 < bytes.length)
    (hfaultless : stage.isFailure = false)
    (hadv : s.Advances (s.step id reply) id call reply change stage) :
    Vacant o (s.step id reply) call.name ∨ ∃ x bytes, call.stage.toStore? = some (x, bytes) ∧
      Won o (s.step id reply) call.name id x bytes := by
  have hfits := hsound.fits id call hcall
  have hdelete (hop : call.operation = .delete) : call.stage.isOver = true := by
    by_contra hopen
    exact (hnew (by simpa using hopen)).2 hop
  have hidle (w : Work) (hw : call.stage = .work w) : w.isStoring = false ∧ w.hasRead = false :=
    h.idle id w ⟨call, hcall, rfl, hw⟩
  have hrecord := hadv.record call.name
  have hcached := hadv.cached call.name
  rw [if_pos rfl] at hrecord hcached
  rcases hadv.next.vacant_cases hfits h.record h.cached hidle hdelete hpos with
    ⟨hnone, hempty, hstays⟩ | ⟨x, bytes, hstore, hcreate, hstored⟩
  · refine .inl ⟨hrecord.trans hnone, hcached.trans hempty, fun j w hj => ?_,
      fun j x after hj => ?_⟩
    · rcases hadv.worksOn_cases hj with ⟨-, hw⟩ | ⟨-, hj⟩
      · exact hstays w hw
      · exact h.idle j w hj
    · obtain ⟨hunknown, hfound⟩ := hj
      rw [hadv.calls] at hfound
      split at hfound
      case isFalse => exact h.loses j x after ⟨hunknown, hfound⟩
      case isTrue hid =>
        obtain ⟨hname, hcreate, rfl⟩ := Call.mk.inj (Option.some.inj hfound)
        subst hid
        have hbefore : call.stage.Loses False := by
          refine h.loses j x call.stage ⟨hunknown, ?_⟩
          rw [hcall, ← hcreate]
        have hloses := hadv.next.loses hfits hcreate hvalid hfaultless hbefore
          (fun hheld => hheld h.cached) (fun hheld => hheld h.record) fun y bytes hfile hleave => ?_
        · refine hloses.resolve_right ?_
          rintro ⟨-, w, hw, hstoring⟩
          cases (hstays w hw).1.symm.trans hstoring
        · -- without a file, no call finds one
          subst hleave
          exact hfree.record?_ne_none hsound hcall hfile hadv h.record
  · refine .inr ⟨x, bytes, hstore, ⟨stage, ⟨?_, ?_⟩, ?_⟩, fun j y after hne hj => ?_⟩
    · refine (hnew ?_).1
      cases hstage : call.stage <;> rw [hstage] at hstore <;> first
        | rfl
        | cases hstore
    · rw [hadv.calls, if_pos rfl, hcreate]
    · rwa [hrecord]
    · obtain ⟨hunknown, hfound⟩ := hj
      rw [hadv.calls, if_neg hne] at hfound
      exact (h.loses j y after ⟨hunknown, hfound⟩).mono False.elim

/-- While a call stores its record, or has done so, there is one. -/
theorem Stage.HasStored.ne_none {held : Option (List UInt8)} (h : stage.HasStored record held) :
    held ≠ none := by
  rintro rfl
  unfold HasStored at h
  split at h <;> simp_all

/-- Whoever stores its record goes on until it has returned. -/
theorem Next.hasStored (h : Next s id name operation reply stage change stage')
    (hstored : stage.HasStored record (s.record? name)) (hfaultless : stage'.isFailure = false) :
    stage'.HasStored record (change.recordAfter (s.record? name)) := by
  cases h with
  | @wroteSome x bytes content written limit hcontent hlt =>
    obtain ⟨rfl, hpart, hheld⟩ := hstored
    obtain rfl := Option.some.inj (hcontent.symm.trans hheld)
    exact ⟨rfl, hlt, by rw [Change.recordAfter, Disk.overwrite_take bytes hpart.le]⟩
  | @wroteAll x bytes content written limit hcontent hlast =>
    obtain ⟨rfl, hpart, hheld⟩ := hstored
    obtain rfl := Option.some.inj (hcontent.symm.trans hheld)
    show some _ = some bytes
    rw [Disk.overwrite_take bytes hpart.le, List.take_of_length_le hlast]
  | flushed | synced => exact hstored
  | cachedCreated => exact ⟨rfl, hstored⟩
  | left | finished => exact hstored
  | writeFailed | flushFailed | syncFailed => cases hfaultless
  | _ => exact hstored.elim

/-- Only calls that are to create a key store its record. -/
theorem Work.Fits.exists_create {settings : Settings} {v : Work} (h : v.Fits settings operation)
    (hstoring : v.isStoring = true) : ∃ x, operation = .create x := by
  cases v with
  | write x _ _ | flush x | sync x => exact ⟨x, h.1⟩
  | cacheCreated x => exact ⟨x, h⟩
  | rollBack _ => exact h.1
  | _ => cases hstoring

/-- Who has won goes on having won. -/
theorem Won.advances (h : Won o s call.name w secret record) (hsound : s.Sound)
    (hvalid : KeyName.Valid call.name) (hcall : s.calls.find? id = some call)
    (hnew : call.stage.isOver = false → o.calls.find? id = none ∧ call.operation ≠ .delete)
    (hfaultless : stage.isFailure = false)
    (hadv : s.Advances t id call reply change stage) : Won o t call.name w secret record := by
  have hfits := hsound.fits id call hcall
  obtain ⟨⟨before, ⟨hunknown, hfound⟩, hstored⟩, hloses⟩ := h
  have hsome := hstored.ne_none
  have hrecord := hadv.record call.name
  rw [if_pos rfl] at hrecord
  by_cases hid : id = w
  case pos =>
    subst hid
    have hself := Option.some.inj (hcall.symm.trans hfound)
    have hcreate : call.operation = .create secret := congrArg Call.operation hself
    obtain rfl : call.stage = before := congrArg Call.stage hself
    refine ⟨⟨stage, ⟨hunknown, by rw [hadv.calls, if_pos rfl, hcreate]⟩, ?_⟩,
      fun j x after hne hj => ?_⟩
    · rw [hrecord]
      exact hadv.next.hasStored hstored hfaultless
    · obtain ⟨hunknown', hfound'⟩ := hj
      rw [hadv.calls, if_neg hne] at hfound'
      exact hloses j x after hne ⟨hunknown', hfound'⟩
  case neg =>
    have hloser {x : Secret} (hcreate : call.operation = .create x)
        (hnone : o.calls.find? id = none) : call.stage.Loses True := by
      refine hloses id x call.stage hid ⟨hnone, ?_⟩
      rw [hcall, ← hcreate]
    -- the others leave the record as it is
    have hsame : change.recordAfter (s.record? call.name) = s.record? call.name := by
      rcases hadv.next.recordAfter_cases with hsame | hnone | ⟨v, hv, hdraft⟩ | hremoves
      · exact hsame
      · exact absurd hnone hsome
      · have hstoring := isStoring_of_isDraft hdraft
        rw [hv] at hfits
        obtain ⟨x, hcreate⟩ := hfits.2.exists_create hstoring
        have hlost := hloser hcreate (hnew (by rw [hv]; rfl)).1
        rw [hv] at hlost
        cases hlost.symm.trans hstoring
      · rw [hremoves] at hfits
        exact absurd hfits.2 (hnew (by rw [hremoves]; rfl)).2
    refine ⟨⟨before, ⟨hunknown, by rw [hadv.calls, if_neg (Ne.symm hid), hfound]⟩, ?_⟩,
      fun j x after hne hj => ?_⟩
    · rwa [hrecord, hsame]
    · obtain ⟨hunknown', hfound'⟩ := hj
      rw [hadv.calls] at hfound'
      split at hfound'
      case isFalse => exact hloses j x after hne ⟨hunknown', hfound'⟩
      case isTrue heq =>
        obtain ⟨-, hcreate, rfl⟩ := Call.mk.inj (Option.some.inj hfound')
        subst heq
        refine (hadv.next.loses hfits hcreate hvalid hfaultless (hloser hcreate hunknown')
          (fun _ => trivial) (fun _ => trivial) fun _ _ _ _ => trivial).resolve_right ?_
        rintro ⟨hnone, -⟩
        exact hsome hnone

/-- A call comes to end in an internal error only when its secret cannot be encrypted. -/
theorem Next.verdict?_internal (h : Next s id name operation reply stage change stage')
    (hfits : stage.Fits s.settings name operation) (hvalid : KeyName.Valid name)
    (hdelete : operation = .delete → stage.isOver = true)
    (hverdict : stage'.verdict? = some (.error (.internal "cannot encrypt key"))) :
    stage.verdict? = some (.error (.internal "cannot encrypt key")) ∨
      ∃ x fault, stage = .encrypt x ∧ reply.encrypted = .error fault := by
  cases h with
  | refused herror => cases (KeyName.validate_eq_ok_iff.2 hvalid).symm.trans herror
  | notSealed hfault => exact .inr ⟨_, _, rfl, hfault⟩
  | granted => cases (verdict?_of_first hfits.2.2).symm.trans hverdict
  | left | finished => exact .inl hverdict
  | purged => cases hdelete hfits.2
  | _ => cases hverdict

/-- A call that is over stays so. -/
theorem Next.isOver (h : Next s id name operation reply stage change stage')
    (hover : stage.isOver = true) : stage'.isOver = true := by
  cases h with
  | finished => exact hover
  | _ => cases hover

/-! ### Nothing happens under the name -/

/-- Nothing happens under a name but that a call may be made that is not to delete the key. -/
structure Spared (s t : Store) (name : String) : Prop extends s.Unharmed t name where
  stay : ∀ id call, s.calls.find? id = some call → call.name = name →
    t.calls.find? id = some call
  come : ∀ id call, t.calls.find? id = some call → call.name = name →
    s.calls.find? id = some call ∨
      s.calls.find? id = none ∧ call.stage = .start ∧ call.operation ≠ .delete

theorem spared_call (hfresh : s.calls.find? id = none) {n : String}
    (hdelete : n = name → operation ≠ .delete) : s.Spared (s.call id n operation) name where
  toUnharmed := unharmed_call s id n operation name
  stay j other hother _ := by
    have hne : j ≠ id := by
      rintro rfl
      cases hfresh.symm.trans hother
    simpa [Store.call, hne] using hother
  come j other hother hname := by
    rw [Store.call, FiniteMap.find?_insert] at hother
    split at hother
    case isTrue heq =>
      obtain rfl := Option.some.inj hother
      obtain rfl := beq_iff_eq.1 heq
      exact .inr ⟨hfresh, rfl, hdelete hname⟩
    case isFalse => exact .inl hother

theorem Advances.spared (hadv : s.Advances t id call reply change stage)
    (hcall : s.calls.find? id = some call) (hne : call.name ≠ name) : s.Spared t name where
  toUnharmed := hadv.unharmed hne
  stay j other hother hname := by
    rw [hadv.calls, if_neg, hother]
    rintro rfl
    obtain rfl := Option.some.inj (hcall.symm.trans hother)
    exact hne hname
  come j other hother hname := by
    rw [hadv.calls] at hother
    split at hother
    · obtain rfl := Option.some.inj hother
      exact absurd hname hne
    · exact .inl hother

theorem Fades.spared (h : s.Fades t) (name : String) : s.Spared t name where
  toUnharmed := h.unharmed name
  stay j other hother _ := by rwa [h.calls]
  come j other hother _ := .inl (by rwa [h.calls] at hother)

theorem Vacant.spared (h : Vacant o s name) (hsame : s.Spared t name) : Vacant o t name where
  record := hsame.record.trans h.record
  cached := by
    refine Option.eq_none_iff_forall_ne_some.2 fun x hx => ?_
    cases h.cached.symm.trans (hsame.cached x hx)
  idle j w hj := h.idle j w (hsame.worksOn hj)
  loses j x stage hj := by
    rcases hsame.come j _ hj.found rfl with hold | ⟨-, hstart, -⟩
    · exact h.loses j x stage ⟨hj.unknown, hold⟩
    · subst hstart
      trivial

theorem Won.spared (h : Won o s name w secret record) (hsame : s.Spared t name) :
    Won o t name w secret record where
  stores := by
    obtain ⟨stage, ⟨hunknown, hfound⟩, hstored⟩ := h.stores
    exact ⟨stage, ⟨hunknown, hsame.stay w _ hfound rfl⟩, by rwa [hsame.record]⟩
  loses j x stage hne hj := by
    rcases hsame.come j _ hj.found rfl with hold | ⟨-, hstart, -⟩
    · exact h.loses j x stage hne ⟨hj.unknown, hold⟩
    · subst hstart
      trivial

/-! ### Runs -/

/-- There is no contest yet. -/
theorem contested_nil (habsent : o.Absent name) : Contested o [] o name := by
  have hnone {id : Nat} {call : Call} (hsince : Since o o id call) : False := by
    cases hsince.unknown.symm.trans hsince.found
  refine ⟨rfl, habsent.free, fun _ h => h, fun id call hcall hname _ => ?_,
    fun id call hsince _ => (hnone hsince).elim, fun id call hsince _ => (hnone hsince).elim,
    fun id call hsince _ => (hnone hsince).elim, .inl ?_⟩
  · exact habsent.settled (id, call) (FiniteMap.mem_entries_iff.2 hcall) hname
  · exact ⟨habsent.record, habsent.cached,
      fun id w hid => absurd hid (habsent.settled.not_worksOn id w),
      fun id x stage hsince => (hnone hsince).elim⟩

/-- What is known of a contest after some moves is known after one more. -/
theorem Contested.mono (h : Contested o moves s name) (move : Move) :
    Contested o (moves ++ [move]) s name where
  settings := h.settings
  free := h.free
  kept := h.kept
  old := h.old
  operation := h.operation
  brings id call hsince hname := by
    obtain ⟨hkey, hmade⟩ := h.brings id call hsince hname
    exact ⟨hkey, fun x bytes hstore => (hmade x bytes hstore).append move⟩
  refused id call hsince hname hverdict := (h.refused id call hsince hname hverdict).append move
  state := h.state.imp_right fun ⟨id, x, bytes, hwon, hsealed⟩ =>
    ⟨id, x, bytes, hwon, hsealed.append move⟩

/-- Nothing is decided where nothing happens under the name. -/
theorem Contested.spared (h : Contested o moves s name) (hsame : s.Spared t name)
    (hfree : t.Free name) (hkept : ∀ id, s.calls.find? id ≠ none → t.calls.find? id ≠ none) :
    Contested o moves t name where
  settings := hsame.settings.trans h.settings
  free := hfree
  kept id hid := hkept id (h.kept id hid)
  old id call hcall hname hid := by
    rcases hsame.come id call hcall hname with hold | ⟨hnone, -⟩
    · exact h.old id call hold hname hid
    · exact absurd hnone (h.kept id hid)
  operation id call hsince hname := by
    rcases hsame.come id call hsince.found hname with hold | ⟨-, -, hdelete⟩
    · exact h.operation id call ⟨hsince.unknown, hold⟩ hname
    · exact hdelete
  brings id call hsince hname := by
    rcases hsame.come id call hsince.found hname with hold | ⟨-, hstart, -⟩
    · exact h.brings id call ⟨hsince.unknown, hold⟩ hname
    · exact brings_of_start_or_isOver (.inl hstart) _
  refused id call hsince hname hverdict := by
    rcases hsame.come id call hsince.found hname with hold | ⟨-, hstart, -⟩
    · exact h.refused id call ⟨hsince.unknown, hold⟩ hname hverdict
    · rw [hstart] at hverdict
      cases hverdict
  state := h.state.imp (fun hvacant => hvacant.spared hsame)
    fun ⟨id, x, bytes, hwon, hsealed⟩ => ⟨id, x, bytes, hwon.spared hsame, hsealed⟩

/-- A call for the name that is not over was made since, and is not to delete the key. -/
theorem Contested.new (h : Contested o moves s call.name) (hcall : s.calls.find? id = some call)
    (hopen : call.stage.isOver = false) :
    o.calls.find? id = none ∧ call.operation ≠ .delete := by
  have hunknown : o.calls.find? id = none := by
    by_contra hid
    cases hopen.symm.trans (h.old id call hcall rfl hid)
  exact ⟨hunknown, h.operation id call ⟨hunknown, hcall⟩ rfl⟩

/-- The contest goes on with each step of a call for the name. -/
theorem Contested.advances (h : Contested o moves s call.name) (hs : o.run moves = s)
    (hsound : s.Sound) (hvalid : KeyName.Valid call.name) (hcall : s.calls.find? id = some call)
    (hfaultless : stage.isFailure = false)
    (hadv : s.Advances (s.step id reply) id call reply change stage) :
    Contested o (moves ++ [.step id reply]) (s.step id reply) call.name := by
  have hfits := hsound.fits id call hcall
  have hnew := h.new hcall
  have hdelete (hop : call.operation = .delete) : call.stage.isOver = true := by
    by_contra hopen
    exact (hnew (by simpa using hopen)).2 hop
  have hstage {x : Secret} (hx : call.stage = .encrypt x) :
      (o.run moves).stage? id = some (.encrypt x) := by
    rw [hs, stage?, hcall, Option.map_some, hx]
  have hbrings (hunknown : o.calls.find? id = none) :
      stage.Brings o.settings (Sealed o (moves ++ [.step id reply]) id) := by
    have hbefore := h.brings id call ⟨hunknown, hcall⟩ rfl
    rw [← h.settings] at hbefore ⊢
    refine hadv.next.brings hbefore (fun x bytes hmade => hmade.append _) (fun hkey x => ?_)
      fun x c hencrypt hkey hc => ?_
    · exact .inl ⟨h.settings ▸ hkey, rfl⟩
    · exact .inr ⟨h.settings ▸ hkey, moves, reply, c, List.prefix_rfl, hstage hencrypt, hc, rfl⟩
  have hothers := h.mono (.step id reply)
  refine ⟨hadv.settings.trans h.settings, h.free.step hsound id reply, fun j hj => ?_, ?_, ?_, ?_,
    ?_, ?_⟩
  case refine_1 =>
    rw [hadv.calls]
    split
    · simp
    · exact h.kept j hj
  case refine_2 =>
    exact hadv.forall_calls (fun hname hid => hadv.next.isOver (h.old id call hcall hname hid))
      fun j other _ => h.old j other
  case refine_3 =>
    rintro j other ⟨hunknown, hother⟩
    exact hadv.forall_calls (P := fun j c => o.calls.find? j = none → c.name = call.name →
        c.operation ≠ .delete)
      (fun hid hname => h.operation id call ⟨hid, hcall⟩ hname)
      (fun k c _ hc hk => h.operation k c ⟨hk, hc⟩) j other hother hunknown
  case refine_4 =>
    rintro j other ⟨hunknown, hother⟩
    exact hadv.forall_calls (P := fun j c => o.calls.find? j = none → c.name = call.name →
        c.stage.Brings o.settings (Sealed o (moves ++ [.step id reply]) j))
      (fun hid _ => hbrings hid) (fun k c _ hc hk => hothers.brings k c ⟨hk, hc⟩) j other hother
      hunknown
  case refine_5 =>
    rintro j other ⟨hunknown, hother⟩
    refine hadv.forall_calls (P := fun j c => o.calls.find? j = none → c.name = call.name →
        c.stage.verdict? = some (.error (.internal "cannot encrypt key")) →
        NotSealed o (moves ++ [.step id reply]) j)
      (fun hid hname hverdict => ?_)
      (fun k c _ hc hk => hothers.refused k c ⟨hk, hc⟩) j other hother
      hunknown
    rcases hadv.next.verdict?_internal hfits hvalid hdelete hverdict with
      hbefore | ⟨x, fault, hencrypt, hfault⟩
    · exact hothers.refused id call ⟨hid, hcall⟩ hname hbefore
    · exact ⟨moves, reply, x, fault, List.prefix_rfl, hstage hencrypt, hfault⟩
  case refine_6 =>
    rcases h.state with hvacant | ⟨w, x, bytes, hwon, hsealed⟩
    · -- what a call stores it has made in this run
      have hmade (x : Secret) (bytes : List UInt8)
          (hstore : call.stage.toStore? = some (x, bytes)) :
          Sealed o moves id x bytes := by
        refine (h.brings id call ⟨(hnew ?_).1, hcall⟩ rfl).2 x bytes hstore
        cases hbefore : call.stage <;> rw [hbefore] at hstore <;> first
          | rfl
          | cases hstore
      refine (hvacant.advances hsound h.free hvalid hcall hnew (fun x bytes hstore =>
        (hmade x bytes hstore).length_pos) hfaultless hadv).imp_right ?_
      rintro ⟨x, bytes, hstore, hwon⟩
      exact ⟨id, x, bytes, hwon, (hmade x bytes hstore).append _⟩
    · exact .inr ⟨w, x, bytes, hwon.advances hsound hvalid hcall hnew hfaultless hadv,
        hsealed.append _⟩

/-- The contest goes on with each move. -/
theorem Contested.append (h : Contested o moves s name) (hs : o.run moves = s) (hsound : s.Sound)
    (hvalid : KeyName.Valid name) (hfresh : move.Fresh s) (hcontends : Contends name s move) :
    Contested o (moves ++ [move]) (s.move move) name := by
  refine keeps_move (P := fun t => Contested o (moves ++ [move]) t name) ?_ ?_ ?_ hfresh hsound
    (h.mono move)
  case refine_1 =>
    rintro id n operation rfl hnone
    refine (h.mono _).spared (spared_call hnone hcontends) h.free fun j hj => ?_
    rw [Store.call, FiniteMap.find?_insert]
    split
    · simp
    · exact hj
  case refine_2 =>
    rintro id reply call change stage rfl hcall hadv
    by_cases hname : call.name = name
    case pos =>
      subst hname
      refine h.advances hs hsound hvalid hcall (hcontends call hcall rfl stage ?_) hadv
      rw [stage?, hadv.calls, if_pos rfl]
      rfl
    case neg =>
      refine (h.mono _).spared (hadv.spared hcall hname) (h.free.step hsound id reply)
        fun j hj => ?_
      rw [hadv.calls]
      split
      · simp
      · exact hj
  case refine_3 =>
    intro _ hfades
    refine (h.mono _).spared (hfades.spared name) (h.free.of_eq hfades.settings hfades.disk)
      fun j hj => ?_
    rwa [hfades.calls]

/-- Who has won goes on having won with each move. -/
theorem Won.append (h : Won o s name w secret record) (hcontested : Contested o moves s name)
    (hsound : s.Sound) (hvalid : KeyName.Valid name) (hfresh : move.Fresh s)
    (hcontends : Contends name s move) : Won o (s.move move) name w secret record := by
  refine keeps_move (P := fun t => Won o t name w secret record) ?_ ?_ ?_ hfresh hsound h
  case refine_1 =>
    rintro id n operation rfl hnone
    exact h.spared (spared_call hnone hcontends)
  case refine_2 =>
    rintro id reply call change stage rfl hcall hadv
    by_cases hname : call.name = name
    case pos =>
      subst hname
      refine h.advances hsound hvalid hcall (hcontested.new hcall)
        (hcontends call hcall rfl stage ?_)
        hadv
      rw [stage?, hadv.calls, if_pos rfl]
      rfl
    case neg => exact h.spared (hadv.spared hcall hname)
  case refine_3 => exact fun _ hfades => h.spared (hfades.spared name)

section

variable {later : List Move} (hsound : o.Sound) (hvalid : KeyName.Valid name)
  (habsent : o.Absent name)

include hsound hvalid habsent

/-- Calls that are made for a key that there is not contend for it. -/
theorem Legal.contested (hlegal : Legal (Contends name) o moves) :
    Contested o moves (o.run moves) name := by
  -- each move extends the contest of those before it
  induction moves using List.reverseRecOn with
  | nil => exact contested_nil habsent
  | append_singleton moves move ih =>
    obtain ⟨hmoves, hfresh, hcontends, -⟩ := legal_append.1 hlegal
    rw [run_append]
    exact (ih hmoves).append rfl (hmoves.sound hsound) hvalid hfresh hcontends

/-- Who has won goes on having won. -/
theorem Legal.won (hlegal : Legal (Contends name) o (moves ++ later))
    (hwon : Won o (o.run moves) name w secret record) :
    Won o (o.run (moves ++ later)) name w secret record := by
  induction later using List.reverseRecOn with
  | nil => rwa [List.append_nil]
  | append_singleton later move ih =>
    rw [← List.append_assoc] at hlegal ⊢
    obtain ⟨hmoves, hfresh, hcontends, -⟩ := legal_append.1 hlegal
    have hcontested := hmoves.contested hsound hvalid habsent
    rw [run_append]
    exact (ih hmoves).append hcontested (hmoves.sound hsound) hvalid hfresh hcontends

end

end

end Keyring.Store
