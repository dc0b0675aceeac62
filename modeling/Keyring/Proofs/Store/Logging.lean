import Keyring.Proofs.Store.Tampering

/-!
# Failures are logged once

Whatever the key management system answers, the device refuses and others do to the records, a call
ends in one of the few ways that are meant for its operation. What a caller is told of a failure in
storage is the cause; of a failure of the key management system or of an unreadable ciphertext it is
told no more than that there was one. All that is not told is logged, in one line for each failed
call, and in a second one for a file that was made and could not be removed again.

- `Operation.MayEnd`: how a call for an operation may end;
- `Fails`: the steps that fail, with the line that each logs;
- `Taken`, `stepsOf`, `entries`: the steps that a call makes in a run, and what each step logs;
- `log_perform`: a step that fails logs its line, and any other logs nothing;
- `LoggedOnce`, `failures_logged_once`: what a call logs until it ends.
-/

namespace Keyring

/-- A failure that is logged. The others only tell callers how things stand with a name. -/
def Error.isLogged : Error → Bool
  | .keyExists | .keyNotFound | .invalidName _ _ => false
  | _ => true

/-- How a call for an operation under a name may end. -/
def Operation.MayEnd (settings : Store.Settings) (name : String) : Operation → Outcome → Prop
  | .create _, .ok .done | .get, .ok (.secret _) | .delete, .ok .done => True
  | .create _, .error .keyExists | .get, .error .keyNotFound => True
  | _, .error (.invalidName text reason) =>
    KeyName.validate name = .error (.invalidName text reason)
  | _, .error (.io _) => settings.backend ≠ .memory
  | .create _, .error (.internal message) =>
    message = "cannot encrypt key" ∧ settings.masterKey ≠ none
  | .get, .error .keySealed => settings.masterKey ≠ none
  | .get, .error (.malformedSecret _) => settings.masterKey = none
  | _, _ => False

namespace Store

/-- A failed stage explains how a call for an operation ends. -/
def FailedStage.Explains : FailedStage → Operation → Error → Prop
  | .encrypt, .create _, .internal _ | .create, .create _, .io _ => True
  | .read, .get, .io _ | .parse, .get, .malformedSecret _ | .parse, .get, .keySealed
  | .decrypt, .get, .keySealed => True
  | .delete, .delete, .io _ => True
  | _, _, _ => False

/-- The steps that fail: the stages that they lead from and to, and what is logged. -/
inductive Fails (s : Store) (name : String) (reply : Reply) :
    Stage → Stage → FailedStage → String → Prop where
  | encrypt {secret : Secret} {fault : KmsFault} (h : reply.encrypted = .error fault) :
    Fails s name reply (.encrypt secret) (.finished (.error (.internal "cannot encrypt key")))
      .encrypt fault.message
  | makeDirectory {secret : Secret} {record : List UInt8} {fault : FileFault} :
    Fails s name reply (.work (.makeDirectory secret record)) (.leave (.error (.io fault)))
      .create fault.message
  | createFile {secret : Secret} {record : List UInt8} {fault : FileFault} :
    Fails s name reply (.work (.createFile secret record)) (.leave (.error (.io fault)))
      .create fault.message
  | write {secret : Secret} {record : List UInt8} {written : Nat} {fault : FileFault} :
    Fails s name reply (.work (.write secret record written)) (.work (.rollBack fault))
      .create fault.message
  | flush {secret : Secret} {fault : FileFault} :
    Fails s name reply (.work (.flush secret)) (.work (.rollBack fault)) .create fault.message
  | sync {secret : Secret} {fault : FileFault} :
    Fails s name reply (.work (.sync secret)) (.work (.rollBack fault)) .create fault.message
  -- the call ends with the first fault, and the second one is logged
  | rollBack {fault second : FileFault} (h : s.removal name reply.device ≠ .done) :
    Fails s name reply (.work (.rollBack fault)) (.leave (.error (.io fault)))
      .rollback second.message
  | read {fault : FileFault} :
    Fails s name reply (.work .read) (.leave (.error (.io fault))) .read fault.message
  | parseSecret {record : List UInt8} {fault : Secret.Fault}
      (hrecord : s.record? name = some record)
      (h : Secret.ofRecord (s.settings.backend.readable record) = .error fault) :
    Fails s name reply (.work .read) (.leave (.error fault.toError)) .parse fault.toError.message
  | parseCiphertext {record : List UInt8} {error : Error} (hrecord : s.record? name = some record)
      (h : Ciphertext.ofRecord (s.settings.backend.readable record) = .error error) :
    Fails s name reply (.work .read) (.leave (.error .keySealed)) .parse error.message
  | decrypt {c : Ciphertext} {fault : KmsFault} (h : reply.decrypted = .error fault) :
    Fails s name reply (.work (.decrypt c)) (.leave (.error .keySealed)) .decrypt fault.message
  | remove {fault : FileFault} (h : s.removal name reply.device = .failed fault) :
    Fails s name reply (.work .remove) (.work (.purge (.error (.io fault))))
      .delete fault.message

/-- A step that a call makes. -/
structure Taken where
  /-- The store in which it is made. -/
  store : Store
  /-- The call, at the stage that the step leads from. -/
  call : Call
  /-- The answer to the step. -/
  reply : Reply
  /-- The stage that the step leads to. -/
  next : Stage

/-- A step fails, and this is logged. -/
def Taken.Fails (m : Taken) (failed : FailedStage) (cause : String) : Prop :=
  m.store.Fails m.call.name m.reply m.call.stage m.next failed cause

/-- A step that is to remove the file of a call that has failed does not do so. -/
def Taken.KeepsFile (m : Taken) : Prop :=
  (∃ fault, m.call.stage = .work (.rollBack fault)) ∧
    m.store.removal m.call.name m.reply.device ≠ .done

/-- The step of a call that happens next, if one does. -/
def stepOf (id : Nat) (s : Store) : Occurrence → Option Taken
  | .incident (.move (.step j reply)) =>
    if j = id then
      (s.calls.find? id).map fun call => ⟨s, call, reply, (s.perform id call reply).2⟩
    else none
  | _ => none

/-- The steps that a call makes in a run. -/
def stepsOf (id : Nat) : Store → List Occurrence → List Taken
  | _, [] => []
  | s, o :: occurrences => (s.stepOf id o).toList ++ stepsOf id (s.occur o) occurrences

/-- What is logged by what happens next, with the number of the call that logs it. -/
def entry (s : Store) : Occurrence → List (Nat × LogEvent)
  | .incident (.move (.step id reply)) =>
    ((s.step id reply).log.drop s.log.length).map fun event => (id, event)
  | _ => []

/-- What is logged in a run, with the numbers of the calls that log it. -/
def entries : Store → List Occurrence → List (Nat × LogEvent)
  | _, [] => []
  | s, o :: occurrences => s.entry o ++ entries (s.occur o) occurrences

/-- What a call logs, of what is logged in a run. -/
def loggedBy (id : Nat) (entries : List (Nat × LogEvent)) : List LogEvent :=
  (entries.filter fun entry => entry.1 = id).map Prod.snd

/-- Neither is a call given up nor the store set up anew. -/
def Occurrence.Spares (id : Nat) : Occurrence → Prop
  | .incident (.drop j) => j ≠ id
  | .incident .restart => False
  | _ => True

instance decidableSpares (id : Nat) : (o : Occurrence) → Decidable (o.Spares id)
  | .incident (.drop j) => inferInstanceAs (Decidable (j ≠ id))
  | .incident .restart => isFalse fun h => h
  | .incident (.move _) | .tamper _ _ => isTrue trivial

/-- The logged failure that an outcome tells of. -/
def failureOf : Outcome → Option Error
  | .error error => if error.isLogged then some error else none
  | .ok _ => none

/-- The logged failure that a call at a stage is to end with. -/
def Stage.failure? : Stage → Option Error
  | .work (.rollBack fault) => some (.io fault)
  | .work (.purge outcome) | .leave outcome | .finished outcome => failureOf outcome
  | _ => none

/-- The steps of a call and the lines that it logged fit the failure that it is to end with. If
there is none, nothing was logged. Otherwise one step of the call has failed and was logged, and so
was, in a second line, that the call did not remove its file. -/
def LoggedOnce (sink : Sink) (name : String) (operation : Operation) (made : List Taken)
    (logged : List LogEvent) : Option Error → Prop
  | none => logged = [] ∧ ∀ m ∈ made, ¬m.KeepsFile
  | some error =>
    ∃ m ∈ made, ∃ failed cause, m.Fails failed cause ∧ m.next.failure? = some error ∧
      failed.Explains operation error ∧
      ∃ second : Option String,
        logged = ⟨sink, failed, name, cause⟩ ::
          second.toList.map (fun cause => ⟨sink, .rollback, name, cause⟩) ∧
        (second.isSome ↔ ∃ m ∈ made, m.KeepsFile)

/-- What a step logs: a step that fails its line, and any other nothing. -/
inductive Logs (s : Store) (name : String) (reply : Reply) (before after : Stage) :
    List LogEvent → Prop where
  | nothing (hsame : after.failure? = before.failure?)
      (hgone : ∀ fault, before = .work (.rollBack fault) → s.removal name reply.device = .done) :
    Logs s name reply before after []
  | failure {failed : FailedStage} {cause : String}
      (h : s.Fails name reply before after failed cause) :
    Logs s name reply before after [⟨s.settings.sink, failed, name, cause⟩]

/-- What is done at a stage logs what such a step is to log. -/
def Reports (s : Store) (name : String) (reply : Reply) (stage : Stage) (result : Store × Stage) :
    Prop :=
  ∃ logged, s.Logs name reply stage result.2 logged ∧ result.1.log = s.log ++ logged

section

variable {s : Store} {id : Nat} {name directory : String} {operation : Operation} {reply : Reply}
  {secret : Secret} {record : List UInt8} {stage : Stage}

/-! ### One step -/

/-- A step that goes on without a failure and leaves the log as it is. -/
theorem reports_nothing {result : Store × Stage} (hlog : result.1.log = s.log)
    (hsame : result.2.failure? = stage.failure?)
    (hgone : ∀ fault, stage = .work (.rollBack fault) → s.removal name reply.device = .done) :
    s.Reports name reply stage result :=
  ⟨[], .nothing hsame hgone, by rw [hlog, List.append_nil]⟩

/-- A step that fails and adds its line to the log. -/
theorem reports_failure {result : Store × Stage} {failed : FailedStage} {cause : String}
    (h : s.Fails name reply stage result.2 failed cause)
    (hlog : result.1.log = s.log ++ [⟨s.settings.sink, failed, name, cause⟩]) :
    s.Reports name reply stage result :=
  ⟨_, .failure h, hlog⟩

theorem reports_begin : s.Reports name reply .start (s.begin name operation) := by
  have hsweeps : s.startSweeps.log = s.log := by
    unfold startSweeps
    split <;> rfl
  unfold begin KeyName.validate
  cases KeyName.fault? name with
  | some fault => exact reports_nothing rfl rfl (by simp)
  | none => cases operation <;> exact reports_nothing hsweeps rfl (by simp)

theorem reports_lookUpNew :
    s.Reports name reply (.lookUpNew secret) (s.lookUpNew name secret) := by
  unfold lookUpNew
  split <;> exact reports_nothing rfl rfl (by simp)

theorem reports_lookUp : s.Reports name reply .lookUp (s.lookUp name) := by
  unfold lookUp
  split <;> exact reports_nothing rfl rfl (by simp)

theorem reports_makeRecord : s.Reports name reply (.record secret) (s.makeRecord secret) := by
  unfold makeRecord
  split <;> exact reports_nothing rfl rfl (by simp)

theorem reports_takeCiphertext :
    s.Reports name reply (.encrypt secret) (s.takeCiphertext name secret reply.encrypted) := by
  unfold takeCiphertext
  split
  · exact reports_nothing rfl rfl (by simp)
  · next h => exact reports_failure (.encrypt h) rfl

theorem reports_makeDirectory :
    s.Reports name reply (.work (.makeDirectory secret record))
      (s.makeDirectory directory name secret record reply.device) := by
  unfold makeDirectory
  split
  · exact reports_failure .makeDirectory rfl
  · split
    · exact reports_failure .makeDirectory rfl
    · exact reports_nothing rfl rfl (by simp)

theorem reports_createFile :
    s.Reports name reply (.work (.createFile secret record))
      (s.createFile directory name secret record reply.device) := by
  unfold createFile
  split
  · exact reports_failure .createFile rfl
  · split
    case h_1 | h_2 => exact reports_nothing rfl rfl (by simp)
    case h_3 => exact reports_failure .createFile rfl

theorem reports_write {written : Nat} :
    s.Reports name reply (.work (.write secret record written))
      (s.write directory name secret record written reply.device) := by
  unfold write
  split
  · exact reports_failure .write rfl
  · split
    · exact reports_failure .write rfl
    · refine reports_nothing rfl ?_ (by simp)
      simp only
      split <;> rfl

theorem reports_flush :
    s.Reports name reply (.work (.flush secret)) (s.flush name secret reply.device) := by
  unfold flush
  split
  · exact reports_failure .flush rfl
  · exact reports_nothing rfl rfl (by simp)

theorem reports_sync :
    s.Reports name reply (.work (.sync secret)) (s.sync name secret reply.device) := by
  unfold sync
  split
  · exact reports_failure .sync rfl
  · exact reports_nothing rfl rfl (by simp)

theorem reports_rollBack {fault : FileFault} (hfiles : s.settings.backend = .files directory) :
    s.Reports name reply (.work (.rollBack fault))
      (s.rollBack directory name fault reply.device) := by
  unfold rollBack
  split
  · next hdevice =>
    have hne : s.removal name reply.device ≠ .done := by
      rw [hdevice, removal_of_refuse hfiles]
      nofun
    exact reports_failure (.rollBack hne) rfl
  · next hdevice =>
    split
    · next h =>
      -- there may have been nothing to remove, or the removal failed
      have hne : s.removal name reply.device ≠ .done := by
        rw [hdevice, removal_of_accept hfiles, h]
        split <;> simp_all
      exact reports_failure (.rollBack hne) rfl
    · next h =>
      exact reports_nothing rfl rfl fun _ _ => by rw [hdevice, removal_of_accept hfiles, h]

theorem reports_insert :
    s.Reports name reply (.work (.insert secret record)) (s.insert name secret record) := by
  unfold insert
  split <;> exact reports_nothing rfl rfl (by simp)

theorem reports_understand {held : List UInt8} (hrecord : s.record? name = some held) :
    s.Reports name reply (.work .read)
      (s.understand name (s.settings.backend.readable held)) := by
  unfold understand
  split <;> split
  · exact reports_nothing rfl rfl (by simp)
  · next h => exact reports_failure (.parseSecret hrecord h) rfl
  · exact reports_nothing rfl rfl (by simp)
  · next h => exact reports_failure (.parseCiphertext hrecord h) rfl

theorem reports_read (hvalid : KeyName.Valid name) :
    s.Reports name reply (.work .read) (s.read name reply.device) := by
  unfold read
  split
  · next hmemory =>
    split
    · exact reports_nothing rfl rfl (by simp)
    · next record h =>
      have hreports : s.Reports name reply (.work .read)
          (s.understand name (s.settings.backend.readable record)) :=
        reports_understand (by rw [record?, hmemory]; exact h)
      rwa [hmemory] at hreports
  · exact reports_failure .read rfl
  · next directory _ hfiles _ =>
    split
    · next content h =>
      have hcontent := ((Disk.read_eq_ok_iff hvalid).1 h).2
      have hreports : s.Reports name reply (.work .read)
          (s.understand name (s.settings.backend.readable content)) :=
        reports_understand (by rw [record?, hfiles]; exact hcontent)
      rwa [hfiles] at hreports
    · exact reports_nothing rfl rfl (by simp)
    · exact reports_failure .read rfl

theorem reports_takeSecret {c : Ciphertext} :
    s.Reports name reply (.work (.decrypt c)) (s.takeSecret name reply.decrypted) := by
  unfold takeSecret
  split
  · exact reports_nothing rfl rfl (by simp)
  · next h => exact reports_failure (.decrypt h) rfl

theorem reports_remove : s.Reports name reply (.work .remove) (s.remove name reply.device) := by
  unfold remove
  split
  · exact reports_nothing rfl rfl (by simp)
  · next fault hfiles hdevice =>
    have hfailed : s.removal name reply.device = .failed fault := by
      rw [hdevice, removal_of_refuse hfiles]
    exact reports_failure (.remove hfailed) rfl
  · next hfiles hdevice =>
    split
    case h_1 | h_2 => exact reports_nothing rfl rfl (by simp)
    case h_3 fault hfault h =>
      have hfailed : s.removal name reply.device = .failed fault := by
        rw [hdevice, removal_of_accept hfiles, h]
        split <;> simp_all
      exact reports_failure (.remove hfailed) rfl

/-- Fitting work under the lock logs what it is to log. -/
theorem reports_doWork {work : Work} (hvalid : KeyName.Valid name)
    (hfits : work.Fits s.settings operation) :
    s.Reports name reply (.work work) (s.doWork name reply work) := by
  cases work with
  | makeDirectory secret record =>
    obtain ⟨directory, hfiles⟩ := exists_files hfits.2
    simp only [doWork, hfiles]
    exact reports_makeDirectory
  | createFile secret record =>
    obtain ⟨directory, hfiles⟩ := exists_files hfits.2
    simp only [doWork, hfiles]
    exact reports_createFile
  | write secret record written =>
    obtain ⟨directory, hfiles⟩ := exists_files hfits.2
    simp only [doWork, hfiles]
    exact reports_write
  | flush secret => exact reports_flush
  | sync secret => exact reports_sync
  | rollBack fault =>
    obtain ⟨directory, hfiles⟩ := exists_files hfits.2
    simp only [doWork, hfiles]
    exact reports_rollBack hfiles
  | insert secret record => exact reports_insert
  | read => exact reports_read hvalid
  | decrypt c => exact reports_takeSecret
  | remove => exact reports_remove
  | cacheCreated _ | cacheRead _ | purge _ => exact reports_nothing rfl rfl (by simp)

/-- **What a step logs.** A step that fails adds its line to the log, and any other step adds
nothing. -/
theorem log_perform {call : Call} (id : Nat) (reply : Reply)
    (hfits : call.stage.Fits s.settings call.name call.operation) :
    s.Reports call.name reply call.stage (s.perform id call reply) := by
  obtain ⟨name, operation, stage⟩ := call
  cases stage with
  | start => exact reports_begin
  | lookUpNew secret => exact reports_lookUpNew
  | lookUp => exact reports_lookUp
  | record secret => exact reports_makeRecord
  | encrypt secret => exact reports_takeCiphertext
  | work work => exact reports_doWork hfits.1 hfits.2
  | wait work =>
    refine reports_nothing rfl ?_ (by simp)
    -- work that a call begins with follows no failure
    obtain ⟨-, -, hfirst⟩ := hfits
    simp only [perform]
    split
    · cases work <;> first | rfl | cases hfirst
    · rfl
  | obtain _ | request _ | leave _ | finished _ => exact reports_nothing rfl rfl (by simp)

/-- What a call logs in a step, and to which sink. -/
theorem log_step {call : Call} (hcall : s.calls.find? id = some call)
    (hfits : call.stage.Fits s.settings call.name call.operation) (reply : Reply) :
    ∃ logged, s.Logs call.name reply call.stage (s.perform id call reply).2 logged ∧
      (s.step id reply).log = s.log ++ logged ∧
      ∀ event ∈ logged, event.sink = s.settings.sink := by
  obtain ⟨logged, hlogs, hlog⟩ := log_perform id reply hfits
  refine ⟨logged, hlogs, by rw [step, hcall]; exact hlog, ?_⟩
  cases hlogs <;> simp

/-! ### How calls end -/

/-- A call at a stage will end in a way that is meant for its operation. -/
def Stage.Tends (settings : Settings) (name : String) (operation : Operation) : Stage → Prop
  | .encrypt _ | .work (.decrypt _) => settings.masterKey ≠ none
  | .work (.purge outcome) | .leave outcome | .finished outcome =>
    operation.MayEnd settings name outcome
  | _ => True

/-- A name is refused for nothing but itself. -/
theorem mayEnd_of_validate {error : Error} (h : KeyName.validate name = .error error) :
    operation.MayEnd s.settings name (.error error) := by
  have hvalidate := h
  unfold KeyName.validate at h
  split at h
  · obtain rfl := Except.error.inj h
    cases operation <;> exact hvalidate
  · cases h

/-- Each step leads towards such an end. -/
theorem Next.tends {stage' : Stage} {change : Change}
    (h : Next s id name operation reply stage change stage')
    (hfits : stage.Fits s.settings name operation)
    (htends : stage.Tends s.settings name operation) :
    stage'.Tends s.settings name operation := by
  cases h with
  | refused h => exact mayEnd_of_validate h
  | @granted work =>
    -- work that a call begins with is neither decrypting nor purging
    obtain ⟨-, -, hfirst⟩ := hfits
    cases work <;> trivial
  | notRemoved hfailed =>
    obtain ⟨-, rfl⟩ := hfits
    -- nothing fails in memory
    intro hmemory
    cases (removal_of_memory hmemory _ _).symm.trans hfailed
  | _ => simp_all [Stage.Tends, Stage.Fits, Work.Fits, Operation.MayEnd, Secret.Fault.toError]

/-! ### What a call logs -/

/-- A step that fails is the first of its call that does, or it keeps the file of one that has
failed before. -/
theorem Fails.cases {stage' : Stage} {failed : FailedStage} {cause : String}
    (h : s.Fails name reply stage stage' failed cause)
    (hfits : stage.Fits s.settings name operation) :
    (stage.failure? = none ∧
      ∃ error, stage'.failure? = some error ∧ failed.Explains operation error) ∨
    ∃ fault, stage = .work (.rollBack fault) ∧ stage'.failure? = some (.io fault) ∧
      failed = .rollback ∧ s.removal name reply.device ≠ .done := by
  cases h with
  | rollBack hremoval => exact .inr ⟨_, rfl, rfl, rfl, hremoval⟩
  | encrypt | flush | sync | makeDirectory | createFile | write =>
    simp only [Stage.Fits, Work.Fits] at hfits
    simp [hfits, Stage.failure?, failureOf, Error.isLogged, FailedStage.Explains]
  | read | parseSecret | parseCiphertext | decrypt | remove =>
    simp only [Stage.Fits, Work.Fits] at hfits
    simp [hfits, Stage.failure?, failureOf, Error.isLogged, FailedStage.Explains,
      Secret.Fault.toError]

/-- What a call has logged when it is at a stage: what it is to log for the failure that it is to
end with. As long as it has its file to remove, no removal has failed. -/
def Accounted (sink : Sink) (name : String) (operation : Operation) (made : List Taken)
    (logged : List LogEvent) (stage : Stage) : Prop :=
  LoggedOnce sink name operation made logged stage.failure? ∧
    ∀ fault, stage = .work (.rollBack fault) → ∀ m ∈ made, ¬m.KeepsFile

/-- A call that is to remove its file has only just failed. -/
theorem Next.failure?_eq_none {fault : FileFault} {change : Change}
    (h : Next s id name operation reply stage change (.work (.rollBack fault)))
    (hfits : stage.Fits s.settings name operation) : stage.failure? = none := by
  cases h with
  | granted => cases hfits.2.2
  | _ => rfl

/-- One more step leaves what a call has logged in accord with its stage. -/
theorem Accounted.step {call : Call} {made : List Taken} {before logged : List LogEvent}
    {change : Change} {next : Stage}
    (h : Accounted s.settings.sink call.name call.operation made before call.stage)
    (hnext : Next s id call.name call.operation reply call.stage change next)
    (hfits : call.stage.Fits s.settings call.name call.operation)
    (hlogs : s.Logs call.name reply call.stage next logged) :
    Accounted s.settings.sink call.name call.operation (made ++ [⟨s, call, reply, next⟩])
      (before ++ logged) next := by
  obtain ⟨honce, hfile⟩ := h
  -- only a step that is to remove the file may keep it
  have hkeeps (hremoves : ∀ fault, call.stage = .work (.rollBack fault) →
      s.removal call.name reply.device = .done) :
      ¬(⟨s, call, reply, next⟩ : Taken).KeepsFile := by
    rintro ⟨⟨fault, hfault⟩, hne⟩
    exact hne (hremoves fault hfault)
  have hnone (hstage : call.stage.failure? = none) :
      ∀ m ∈ made ++ [⟨s, call, reply, next⟩], ¬m.KeepsFile := by
    rw [hstage] at honce
    intro m hm
    rcases List.mem_append.1 hm with hm | hm
    · exact honce.2 m hm
    · rw [List.mem_singleton.1 hm]
      exact hkeeps fun fault hfault => by rw [hfault] at hstage; cases hstage
  refine ⟨?_, fun fault hfault => hnone (by subst hfault; exact hnext.failure?_eq_none hfits)⟩
  cases hlogs with
  | nothing hsame hgone =>
    rw [hsame, List.append_nil]
    cases hstage : call.stage.failure? with
    | none =>
      rw [hstage] at honce
      exact ⟨honce.1, hnone hstage⟩
    | some error =>
      rw [hstage] at honce
      obtain ⟨m, hm, failed, cause, hfails, herror, hexplains, second, hlogged, hsecond⟩ := honce
      refine ⟨m, List.mem_append_left _ hm, failed, cause, hfails, herror, hexplains, second,
        hlogged, hsecond.trans ?_⟩
      simp [hkeeps hgone]
  | @failure failed cause hfails =>
    rcases hfails.cases hfits with ⟨hstage, error, herror, hexplains⟩ | ⟨fault, hstage, hfailure⟩
    · -- the call has failed now, and nothing was logged before
      rw [herror]
      have hbefore := honce
      rw [hstage] at hbefore
      refine ⟨_, List.mem_append_right _ (List.mem_singleton_self _), failed, cause, hfails,
        herror, hexplains, none, by rw [hbefore.1]; rfl, ?_⟩
      simp only [Option.isSome_none, Bool.false_eq_true, false_iff, not_exists, not_and]
      exact hnone hstage
    · -- the call has failed before, and its file stays
      obtain ⟨herror, rfl, hremoval⟩ := hfailure
      rw [herror]
      rw [hstage] at honce
      obtain ⟨m, hm, failed, first, hfails', herror', hexplains, second, hlogged, hsecond⟩ := honce
      obtain rfl : second = none := by
        have hnone : ¬∃ m ∈ made, m.KeepsFile := by
          simpa using hfile fault hstage
        simpa [hnone] using hsecond
      refine ⟨m, List.mem_append_left _ hm, failed, first, hfails', herror', hexplains, some cause,
        by rw [hlogged]; rfl, ?_⟩
      simp only [Option.isSome_some, true_iff]
      exact ⟨_, List.mem_append_right _ (List.mem_singleton_self _), ⟨fault, hstage⟩, hremoval⟩

/-! ### Runs -/

/-- What happens to a store that is not set up anew adds to its log what its calls log. -/
theorem log_occur (hsound : s.Sound) {o : Occurrence} (hspares : o.Spares id) :
    (s.occur o).log = s.log ++ (s.entry o).map Prod.snd := by
  cases o with
  | tamper disk table => exact (List.append_nil _).symm
  | incident i =>
    cases i with
    | drop j => exact (List.append_nil _).symm
    | restart => cases hspares
    | move m =>
      cases m with
      | step j reply =>
        have hprefix : s.log <+: (s.step j reply).log := by
          cases hcall : s.calls.find? j with
          | none => rw [Store.step, hcall]
          | some call =>
            obtain ⟨logged, -, hlog, -⟩ := log_step hcall (hsound.fits j call hcall) reply
            exact ⟨logged, hlog.symm⟩
        simp only [entry, List.map_map, Function.comp_def, List.map_id']
        exact List.prefix_append_drop hprefix
      | call _ _ _ | wait _ | beginSweep _ | finishSweep _ | evict _ =>
        exact (List.append_nil _).symm

/-- A call that is in progress, with the steps that it has made and what it has logged. -/
def Reported (s : Store) (id : Nat) (name : String) (operation : Operation) (made : List Taken)
    (logged : List LogEvent) : Prop :=
  ∃ stage, s.calls.find? id = some ⟨name, operation, stage⟩ ∧
    stage.Tends s.settings name operation ∧
    Accounted s.settings.sink name operation made logged stage

theorem loggedBy_append (id : Nat) (before after : List (Nat × LogEvent)) :
    loggedBy id (before ++ after) = loggedBy id before ++ loggedBy id after := by
  simp [loggedBy]

theorem loggedBy_map (id j : Nat) (logged : List LogEvent) :
    loggedBy id (logged.map fun event => (j, event)) = if j = id then logged else [] := by
  unfold loggedBy
  rw [List.filter_map, List.map_map]
  by_cases hj : j = id <;> simp [Function.comp_def, hj]

/-- What happens next while a call is in progress is a step of the call, or it leaves the call as it
is and is logged by others. -/
theorem occur_cases {call : Call} {o : Occurrence} (hcall : s.calls.find? id = some call)
    (hsound : s.Sound) (hfresh : o.Fresh s) (hspares : o.Spares id) :
    (∃ reply, o = .incident (.move (.step id reply))) ∨
      (s.occur o).settings = s.settings ∧ (s.occur o).calls.find? id = s.calls.find? id ∧
        s.stepOf id o = none ∧ loggedBy id (s.entry o) = [] := by
  cases o with
  | tamper disk table => exact .inr ⟨rfl, rfl, rfl, rfl⟩
  | incident i =>
    cases i with
    | drop j =>
      exact .inr ⟨rfl, (find?_abandon s j id).trans (if_neg (Ne.symm hspares)), rfl, rfl⟩
    | restart => cases hspares
    | move m =>
      cases m with
      | call j n other =>
        have hne : id ≠ j := by
          rintro rfl
          cases hcall.symm.trans hfresh
        exact .inr ⟨rfl, by simp [Store.occur, befall, move, Store.call, hne], rfl, rfl⟩
      | wait _ | beginSweep _ | finishSweep _ | evict _ => exact .inr ⟨rfl, rfl, rfl, rfl⟩
      | step j reply =>
        by_cases hj : j = id
        case pos => exact .inl ⟨reply, by rw [hj]⟩
        case neg =>
          refine .inr ?_
          have hentry : loggedBy id (s.entry (.incident (.move (.step j reply)))) = [] :=
            (loggedBy_map id j _).trans (if_neg hj)
          cases hfind : s.calls.find? j with
          | none =>
            have hsame : s.occur (.incident (.move (.step j reply))) = s := by
              simp only [Store.occur, befall, move, Store.step, hfind]
            exact ⟨by rw [hsame], by rw [hsame], if_neg hj, hentry⟩
          | some other =>
            obtain ⟨change, next, hadv⟩ := exists_advances hfind (hsound.fits j other hfind) reply
            exact ⟨hadv.settings, (hadv.calls id).trans (if_neg (Ne.symm hj)), if_neg hj, hentry⟩

/-- A step of a call leaves the call in accord with what it has logged. -/
theorem Reported.step {made : List Taken} {logged : List LogEvent}
    (h : s.Reported id name operation made logged) (hsound : s.Sound) (reply : Reply) :
    (s.step id reply).Reported id name operation
      (made ++ (s.stepOf id (.incident (.move (.step id reply)))).toList)
      (logged ++ loggedBy id (s.entry (.incident (.move (.step id reply))))) := by
  obtain ⟨stage, hcall, htends, haccounted⟩ := h
  have hfits := hsound.fits id _ hcall
  obtain ⟨⟨change, hadv⟩, -⟩ := exists_advances_perform hcall hfits reply
  obtain ⟨new, hlogs, hlog, -⟩ := log_step hcall hfits reply
  have hnew : (s.step id reply).log.drop s.log.length = new := by rw [hlog, List.drop_left]
  refine ⟨_, (hadv.calls id).trans (if_pos rfl), ?_, ?_⟩
  · rw [hadv.settings]
    exact hadv.next.tends hfits htends
  · rw [hadv.settings, entry, hnew, loggedBy_map, if_pos rfl, stepOf, if_pos rfl, hcall]
    exact haccounted.step hadv.next hfits hlogs

/-- What happens next leaves a call in accord with what it has logged. -/
theorem Reported.occur {made : List Taken} {logged : List LogEvent} {o : Occurrence}
    (h : s.Reported id name operation made logged) (hsound : s.Sound) (hfresh : o.Fresh s)
    (hspares : o.Spares id) :
    (s.occur o).Reported id name operation (made ++ (s.stepOf id o).toList)
      (logged ++ loggedBy id (s.entry o)) := by
  have hreported := h
  obtain ⟨stage, hcall, htends, haccounted⟩ := hreported
  rcases occur_cases hcall hsound hfresh hspares with ⟨reply, rfl⟩ | hother
  · exact h.step hsound reply
  · obtain ⟨hsettings, hfind, hstep, hentry⟩ := hother
    rw [hstep, hentry, Option.toList_none, List.append_nil, List.append_nil]
    exact ⟨stage, hfind.trans hcall, hsettings ▸ htends, hsettings ▸ haccounted⟩

/-- So does a whole run. -/
theorem Reported.occurAll {made : List Taken} {logged : List LogEvent}
    {allows : Store → Occurrence → Prop} {occurrences : List Occurrence}
    (h : s.Reported id name operation made logged) (hsound : s.Sound)
    (hadmissible : Admissible allows s occurrences) (hspares : ∀ o ∈ occurrences, o.Spares id) :
    (s.occurAll occurrences).Reported id name operation (made ++ s.stepsOf id occurrences)
      (logged ++ loggedBy id (s.entries occurrences)) := by
  induction occurrences generalizing s made logged with
  | nil =>
    rw [stepsOf, entries, loggedBy, List.filter_nil, List.map_nil, List.append_nil,
      List.append_nil]
    exact h
  | cons o occurrences ih =>
    obtain ⟨hfresh, hallows, hrest⟩ := hadmissible
    have hnext := h.occur hsound hfresh (hspares o List.mem_cons_self)
    have hone : Admissible allows s [o] := ⟨hfresh, hallows, trivial⟩
    have hall := ih hnext (hone.sound hsound) hrest fun p hp =>
      hspares p (List.mem_cons_of_mem o hp)
    rw [List.append_assoc, List.append_assoc, ← loggedBy_append] at hall
    exact hall

/-- The log of a store that is not set up anew is the log that it had and what its calls log. -/
theorem log_occurAll {allows : Store → Occurrence → Prop} {occurrences : List Occurrence}
    (hsound : s.Sound) (hadmissible : Admissible allows s occurrences)
    (hspares : ∀ o ∈ occurrences, o.Spares id) :
    (s.occurAll occurrences).log = s.log ++ (s.entries occurrences).map Prod.snd := by
  induction occurrences generalizing s with
  | nil => exact (List.append_nil _).symm
  | cons o occurrences ih =>
    obtain ⟨hfresh, hallows, hrest⟩ := hadmissible
    have hone : Admissible allows s [o] := ⟨hfresh, hallows, trivial⟩
    have hall := ih (hone.sound hsound) hrest fun p hp => hspares p (List.mem_cons_of_mem o hp)
    rw [occurAll_cons, occurAll_nil, log_occur hsound (hspares o List.mem_cons_self)] at hall
    rw [occurAll_cons, hall, entries, List.map_append, List.append_assoc]

/-- Everything is logged to the sink of the store. -/
theorem sink_eq {settings : Settings} {disk : Disk} {now : Nat}
    {allows : Store → Occurrence → Prop} {occurrences : List Occurrence}
    (hadmissible : Admissible allows (new settings disk now) occurrences) :
    let s := (new settings disk now).occurAll occurrences
    s.settings = settings ∧ ∀ event ∈ s.log, event.sink = settings.sink := by
  refine (hadmissible.keeps (P := fun t => t.settings = settings ∧
    ∀ event ∈ t.log, event.sink = settings.sink) ?_ ?_ ?_ ?_ ?_ ?_ (sound_new settings disk now)
    ⟨rfl, by simp [new]⟩).2
  case refine_1 => exact fun u id name operation _ hu _ _ => hu
  case refine_2 =>
    rintro u id call reply change stage hsound ⟨hsettings, hsinks⟩ hcall - hadv
    obtain ⟨logged, -, hlog, hnew⟩ := log_step hcall (hsound.fits id call hcall) reply
    refine ⟨hadv.settings.trans hsettings, fun event hevent => ?_⟩
    rw [hlog, List.mem_append] at hevent
    rcases hevent with hevent | hevent
    · exact hsinks event hevent
    · rw [hnew event hevent, hsettings]
  case refine_3 =>
    rintro u m - hu hother - hfades
    refine ⟨hfades.settings.trans hu.1, ?_⟩
    cases m with
    | step id reply => exact absurd rfl (hother id reply)
    | call _ _ _ | wait _ | beginSweep _ | finishSweep _ | evict _ => exact hu.2
  case refine_4 => exact fun u id _ hu _ => hu
  case refine_5 => exact fun u _ hu _ => ⟨hu.1, by simp [reopen, new]⟩
  case refine_6 => exact fun u disk table _ hu _ => hu

/-- **Failures are contained and logged once.** Whatever the key management system answers, the
device refuses and others do to the records, the log grows by what the calls log, all of it to the
sink of the store; and a call that has ended has done so in one of the ways that are meant for its
operation, and has logged one line if that is a failure that callers are not told in full, and
nothing otherwise. A second line says that its file could not be removed. -/
theorem failures_logged_once {settings : Settings} {disk : Disk} {now : Nat}
    {before after : List Occurrence} {outcome : Outcome}
    (hrun : Admissible (fun _ _ => True) (new settings disk now)
      (before ++ .incident (.move (.call id name operation)) :: after))
    (hspares : ∀ o ∈ after, o.Spares id) :
    let s := ((new settings disk now).occurAll before).call id name operation
    let t := s.occurAll after
    t.log = s.log ++ (s.entries after).map Prod.snd ∧
      (∀ event ∈ t.log, event.sink = settings.sink) ∧
      (t.outcome? id = some outcome →
        operation.MayEnd settings name outcome ∧
          LoggedOnce settings.sink name operation (s.stepsOf id after)
            (loggedBy id (s.entries after)) (failureOf outcome)) := by
  intro s t
  obtain ⟨hbefore, hfresh, -, hafter⟩ := admissible_append.1 hrun
  have hs : s.Sound := (hbefore.sound (sound_new settings disk now)).newCall hfresh name operation
  have hsinks := sink_eq hrun
  rw [occurAll_append, occurAll_cons] at hsinks
  refine ⟨log_occurAll hs hafter hspares, hsinks.2, fun houtcome => ?_⟩
  -- a call that was just made has logged nothing
  have hreported : s.Reported id name operation [] [] :=
    ⟨.start, by simp [s, Store.call], trivial, ⟨rfl, by simp⟩, by simp⟩
  obtain ⟨stage, hcall, htends, haccounted, -⟩ := hreported.occurAll hs hafter hspares
  obtain ⟨_, hcall', hover⟩ := outcome?_eq_some_iff.1 houtcome
  obtain rfl := Option.some.inj (hcall.symm.trans hcall')
  obtain rfl : stage = .finished outcome := hover
  rw [show (s.occurAll after).settings = settings from hsinks.1] at htends haccounted
  exact ⟨htends, haccounted⟩

end

namespace Sample

/-- A key is created, but the device refuses its record and then the removal of its file. -/
def refusedTwice : List Occurrence :=
  (steps 1 8 ++ List.replicate 2 (Move.step 1 refusal) ++ steps 1 1).map fun m =>
    .incident (.move m)

end Sample

/-- A call that leaves a file behind logs two lines and ends with the first fault. -/
theorem failures_logged_once_refusedTwice :
    let s := (Sample.filesWith none).call 1 "a" (.create Sample.secret)
    let t := s.occurAll Sample.refusedTwice
    t.outcome? 1 = some (.error (.io .writeRefused)) ∧
      t.log = [⟨.own, .create, "a", "File too large (os error 27)"⟩,
        ⟨.own, .rollback, "a", "File too large (os error 27)"⟩] ∧
      LoggedOnce .own "a" (.create Sample.secret) (s.stepsOf 1 Sample.refusedTwice)
        (loggedBy 1 (s.entries Sample.refusedTwice)) (some (.io .writeRefused)) := by
  intro s t
  have hrun : Admissible (fun _ _ => True) (Sample.filesWith none)
      ([] ++ .incident (.move (.call 1 "a" (.create Sample.secret))) :: Sample.refusedTwice) := by
    decide +kernel
  have hspares : ∀ o ∈ Sample.refusedTwice, o.Spares 1 := by decide +kernel
  have houtcome : t.outcome? 1 = some (.error (.io .writeRefused)) := by decide +kernel
  obtain ⟨-, -, hended⟩ := failures_logged_once hrun hspares
  exact ⟨houtcome, by decide +kernel, (hended houtcome).2⟩

end Store

end Keyring
