import Keyring.Proofs.Cache.Schedule
import Keyring.Proofs.Store.Sequence

/-!
# What a call does to the cache, and what it costs

A call changes the cache under its own name only: an entry that it puts in has the stamp of the
moment, and an entry that is there keeps its stamp until it is taken out. To get a key costs nothing
when its name is cached, and one decryption otherwise.

- `stamp?`: when what is cached under a name was put in;
- `Stage.cacheAfter`, `Spends`, `spends_perform`: the cache, the sweeps and the counts after a step;
- `Stage.stampAfter`, `Stage.Asked`: the stamp and the decryptions when a call is at a stage;
- `Tally`, `Tally.step`: what a call has done to cache and counts, and that each step keeps to it;
- `tally_act`: what a call has done when it has ended.
-/

namespace Keyring.Store

/-- When what the cache holds under a name was put in. -/
def stamp? (s : Store) (name : String) : Option Nat := s.cache.stamp? name

/-- A store that has checked the name of a call. -/
def opened (s : Store) (name : String) : Store := if KeyName.Valid name then s.startSweeps else s

/-- The cache after a step of a call at a stage. -/
def Stage.cacheAfter (s : Store) (name : String) : Stage → SweptCache
  | .start => (s.opened name).cache
  | .lookUpNew _ | .lookUp => (s.cache.get name).2
  | .work (.cacheCreated secret) => s.cache.set name secret
  | .work (.cacheRead secret) => (s.cache.add name secret).2
  | .work (.purge _) => s.cache.erase name
  | _ => s.cache

/-- Whether the sweeps are started after a step of a call at a stage. -/
def Stage.startedAfter (s : Store) (name : String) : Stage → Bool
  | .start => (s.opened name).started
  | _ => s.started

/-- A call at the stage waits for a ciphertext. -/
def Stage.asksEncryption : Stage → Bool
  | .encrypt _ => true
  | _ => false

/-- A call at the stage waits for a secret. -/
def Stage.asksDecryption : Stage → Bool
  | .work (.decrypt _) => true
  | _ => false

/-- What a step of a call at a stage does to the cache and the counts. -/
structure Spends (s : Store) (name : String) (stage : Stage) (result : Store × Stage) : Prop where
  cache : result.1.cache = stage.cacheAfter s name
  started : result.1.started = stage.startedAfter s name
  encryptions : result.1.encryptions = s.encryptions + if result.2.asksEncryption then 1 else 0
  decryptions : result.1.decryptions = s.decryptions + if result.2.asksDecryption then 1 else 0

section

variable {s t : Store} {id : Nat} {name directory : String} {operation : Operation} {reply : Reply}
  {secret : Secret} {record : List UInt8} {stage : Stage} {call : Call}

/-! ### One step -/

theorem spends_begin : s.Spends name .start (s.begin name operation) := by
  have hcounts : s.startSweeps.encryptions = s.encryptions ∧
      s.startSweeps.decryptions = s.decryptions := by
    unfold startSweeps
    split <;> exact ⟨rfl, rfl⟩
  unfold begin
  split
  · next error h =>
    have hinvalid : ¬KeyName.Valid name := fun hvalid => by
      cases (KeyName.validate_eq_ok_iff.2 hvalid).symm.trans h
    exact ⟨by rw [Stage.cacheAfter, opened, if_neg hinvalid],
      by rw [Stage.startedAfter, opened, if_neg hinvalid], rfl, rfl⟩
  · next h =>
    have hvalid := KeyName.validate_eq_ok_iff.1 h
    have hopened : s.opened name = s.startSweeps := if_pos hvalid
    refine ⟨by rw [Stage.cacheAfter, hopened], by rw [Stage.startedAfter, hopened], ?_, ?_⟩ <;>
      cases operation <;> first | exact hcounts.1 | exact hcounts.2

theorem spends_understand (h : stage.cacheAfter s name = s.cache)
    (hstarted : stage.startedAfter s name = s.started) :
    s.Spends name stage (s.understand name record) := by
  unfold understand
  split <;> split <;> exact ⟨h.symm, hstarted.symm, rfl, rfl⟩

theorem spends_read : s.Spends name (.work .read) (s.read name reply.device) := by
  unfold read
  split
  · split
    · exact ⟨rfl, rfl, rfl, rfl⟩
    · exact spends_understand rfl rfl
  · exact ⟨rfl, rfl, rfl, rfl⟩
  · split
    · exact spends_understand rfl rfl
    · exact ⟨rfl, rfl, rfl, rfl⟩
    · exact ⟨rfl, rfl, rfl, rfl⟩

/-- Work on files costs nothing and leaves the cache alone. -/
theorem spends_onFiles {work : Work} (h : work.changesDisk = true)
    (hfits : work.Fits s.settings operation) :
    s.Spends name (.work work) (s.doWork name reply work) := by
  cases work with
  | makeDirectory secret record =>
    obtain ⟨directory, hfiles⟩ := exists_files hfits.2
    unfold doWork
    rw [hfiles]
    dsimp only [makeDirectory]
    split
    · exact ⟨rfl, rfl, rfl, rfl⟩
    · split <;> exact ⟨rfl, rfl, rfl, rfl⟩
  | createFile secret record =>
    obtain ⟨directory, hfiles⟩ := exists_files hfits.2
    unfold doWork
    rw [hfiles]
    dsimp only [createFile]
    split
    · exact ⟨rfl, rfl, rfl, rfl⟩
    · split <;> exact ⟨rfl, rfl, rfl, rfl⟩
  | write secret record written =>
    obtain ⟨directory, hfiles⟩ := exists_files hfits.2
    unfold doWork
    rw [hfiles]
    dsimp only [write]
    split
    · exact ⟨rfl, rfl, rfl, rfl⟩
    · split
      · exact ⟨rfl, rfl, rfl, rfl⟩
      · refine ⟨rfl, rfl, ?_, ?_⟩ <;> simp only <;> split <;> rfl
  | rollBack fault =>
    obtain ⟨directory, hfiles⟩ := exists_files hfits.2
    unfold doWork
    rw [hfiles]
    dsimp only [rollBack]
    split
    · exact ⟨rfl, rfl, rfl, rfl⟩
    · split <;> exact ⟨rfl, rfl, rfl, rfl⟩
  | remove =>
    unfold doWork
    dsimp only [remove]
    split
    · exact ⟨rfl, rfl, rfl, rfl⟩
    · exact ⟨rfl, rfl, rfl, rfl⟩
    · split <;> exact ⟨rfl, rfl, rfl, rfl⟩
  | _ => cases h

/-- **What a step does to the cache and the counts.** -/
theorem spends_perform (id : Nat) (reply : Reply)
    (hfits : call.stage.Fits s.settings call.name call.operation) :
    s.Spends call.name call.stage (s.perform id call reply) := by
  obtain ⟨name, operation, stage⟩ := call
  cases stage with
  | start => exact spends_begin
  | lookUpNew secret =>
    simp only [perform, lookUpNew]
    split <;> next h => exact ⟨(congrArg Prod.snd h).symm, rfl, rfl, rfl⟩
  | lookUp =>
    simp only [perform, lookUp]
    split <;> next h => exact ⟨(congrArg Prod.snd h).symm, rfl, rfl, rfl⟩
  | record secret =>
    simp only [perform, makeRecord]
    split <;> exact ⟨rfl, rfl, rfl, rfl⟩
  | encrypt secret =>
    simp only [perform, takeCiphertext]
    split <;> exact ⟨rfl, rfl, rfl, rfl⟩
  | obtain _ | request _ | leave _ | finished _ => exact ⟨rfl, rfl, rfl, rfl⟩
  | wait work =>
    obtain ⟨-, -, hfirst⟩ := hfits
    refine ⟨rfl, rfl, ?_, ?_⟩ <;> simp only [perform] <;> split <;>
      cases work <;> first | rfl | cases hfirst
  | work work =>
    cases work with
    | makeDirectory | createFile | write | rollBack | remove => exact spends_onFiles rfl hfits.2
    | flush secret =>
      simp only [perform, doWork, flush]
      split <;> exact ⟨rfl, rfl, rfl, rfl⟩
    | sync secret =>
      simp only [perform, doWork, sync]
      split <;> exact ⟨rfl, rfl, rfl, rfl⟩
    | insert secret record =>
      simp only [perform, doWork, insert]
      split <;> exact ⟨rfl, rfl, rfl, rfl⟩
    | read => exact spends_read
    | decrypt c =>
      simp only [perform, doWork, takeSecret]
      split <;> exact ⟨rfl, rfl, rfl, rfl⟩
    | cacheCreated | cacheRead | purge => exact ⟨rfl, rfl, rfl, rfl⟩

/-! ### Stamps -/

theorem stamp?_eq_none_iff : s.stamp? name = none ↔ s.cached? name = none :=
  SweptCache.stamp?_eq_none_iff

/-- To check a name changes nothing of the cache but its sweeps. -/
theorem exists_opened (s : Store) (name : String) :
    ∃ sweeps, (s.opened name).cache = { s.cache with sweeps } := by
  unfold opened startSweeps
  split
  · split
    · exact ⟨_, rfl⟩
    · obtain ⟨first, hfirst⟩ := s.cache.exists_startSweep .created s.settings.expiry
      obtain ⟨second, hsecond⟩ := SweptCache.exists_startSweep { s.cache with sweeps := first }
        .unused s.settings.unusedExpiry
      exact ⟨second, by rw [← hsecond, hfirst]⟩
  · exact ⟨_, rfl⟩

/-- The stamp of the name of a call after a step at a stage, if it was `before`. -/
def Stage.restamp (now : Nat) (before : Option Nat) : Stage → Option Nat
  | .work (.cacheCreated _) => some now
  | .work (.cacheRead _) => some (before.getD now)
  | .work (.purge _) => none
  | _ => before

theorem stamp?_cacheAfter (s : Store) (name n : String) (stage : Stage) :
    (stage.cacheAfter s name).stamp? n =
      if n = name then stage.restamp s.cache.now (s.stamp? name) else s.stamp? n := by
  have hsame : s.stamp? n = if n = name then s.stamp? name else s.stamp? n := by
    split
    case isTrue h => rw [h]
    case isFalse => rfl
  cases stage with
  | start =>
    obtain ⟨sweeps, hsweeps⟩ := s.exists_opened name
    rw [Stage.cacheAfter, hsweeps]
    exact hsame
  | lookUpNew | lookUp => exact (SweptCache.stamp?_get _ _ _).trans hsame
  | work w =>
    cases w with
    | cacheCreated secret => exact SweptCache.stamp?_set _ _ _ _
    | cacheRead secret => exact SweptCache.stamp?_add _ _ _ _
    | purge outcome => exact SweptCache.stamp?_erase _ _ _
    | _ => exact hsame
  | _ => exact hsame

/-- The stamp of the name of a call when it is at a stage, if it was `before` the call. -/
def Stage.stampAfter (name : String) (operation : Operation) (now : Nat) (before : Option Nat) :
    Stage → Option Nat
  | .leave outcome =>
    match operation, outcome with
    | .create _, .ok _ => some now
    | .get, .ok _ => some (before.getD now)
    | .create _, .error _ | .get, .error _ => before
    | .delete, _ => none
  | .finished outcome =>
    match operation, outcome with
    | .create _, .ok _ => some now
    | .get, .ok _ => some (before.getD now)
    | .create _, .error _ | .get, .error _ => before
    | .delete, _ => if KeyName.Valid name then none else before
  | _ => before

/-- Each step leads to the stamp that is due. -/
theorem Next.stampAfter {stage' : Stage} {change : Change} {now : Nat} {before : Option Nat}
    (h : Next s id name operation reply stage change stage')
    (hfits : stage.Fits s.settings name operation)
    (hstamp : s.stamp? name = stage.stampAfter name operation now before) :
    stage.restamp now (stage.stampAfter name operation now before) =
      stage'.stampAfter name operation now before := by
  cases h with
  | refused herror =>
    have hinvalid : ¬KeyName.Valid name := fun hvalid => by
      cases (KeyName.validate_eq_ok_iff.2 hvalid).symm.trans herror
    cases operation <;> simp [Stage.restamp, Stage.stampAfter, hinvalid]
  | hit hheld =>
    -- what is cached has a stamp
    have hsome : before ≠ none := by
      rw [show before = s.stamp? name from hstamp.symm]
      exact mt stamp?_eq_none_iff.1 (by simp [hheld])
    obtain ⟨stamp, rfl⟩ := Option.ne_none_iff_exists'.1 hsome
    obtain ⟨-, rfl⟩ := hfits
    rfl
  | left =>
    cases operation <;> simp_all [Stage.restamp, Stage.stampAfter, Stage.Fits]
  | finished => rfl
  | rolledBack | notRolledBack =>
    obtain ⟨-, ⟨secret, rfl⟩, -⟩ := hfits
    rfl
  | _ => simp_all [Stage.restamp, Stage.stampAfter, Stage.Fits, Work.Fits]

/-! ### Counts -/

/-- How often a call that gets a key has asked for a secret when it is at a stage, if its name had
the stamp `before` the call. -/
def Stage.Asked (keyed : Bool) (before : Option Nat) (count : Nat) : Stage → Prop
  | .obtain _ | .request _ | .wait _ | .work .read => before = none ∧ count = 0
  | .work (.decrypt _) => before = none ∧ keyed = true ∧ count = 1
  | .work (.cacheRead _) => before = none ∧ count = if keyed then 1 else 0
  | .leave (.ok _) | .finished (.ok _) =>
    count = if before.isSome then 0 else if keyed then 1 else 0
  | .leave (.error _) | .finished (.error _) => True
  | _ => count = 0

/-- Each step asks for what the stage that it leads to needs. -/
theorem Next.asked {stage' : Stage} {change : Change} {before : Option Nat} {count : Nat}
    (h : Next s id name .get reply stage change stage')
    (hfits : stage.Fits s.settings name .get) (hstamp : stage = .lookUp → s.stamp? name = before)
    (hasked : stage.Asked s.settings.masterKey.isSome before count) :
    stage'.Asked s.settings.masterKey.isSome before
      (count + if stage'.asksDecryption then 1 else 0) := by
  cases h with
  | hit hheld =>
    have hsome : before ≠ none := by
      rw [← hstamp rfl]
      exact mt stamp?_eq_none_iff.1 (by simp [hheld])
    obtain ⟨stamp, rfl⟩ := Option.ne_none_iff_exists'.1 hsome
    exact hasked
  | miss hnone =>
    have hbefore : before = none := (hstamp rfl).symm.trans (stamp?_eq_none_iff.2 hnone)
    exact ⟨hbefore, hasked⟩
  | @granted work =>
    obtain ⟨-, hwork, hfirst⟩ := hfits
    cases work with
    | read => exact hasked
    | makeDirectory | insert | remove => simp [Work.Fits] at hwork
    | _ => cases hfirst
  | finished | left => rename_i outcome; cases outcome <;> exact hasked
  | _ => simp_all [Stage.Asked, Stage.Fits, Work.Fits, Stage.asksDecryption]

/-! ### A whole call -/

/-- A store that has checked the name of a call that is at a stage. -/
def Stage.checked (s : Store) (name : String) : Stage → Store
  | .start => s
  | _ => s.opened name

/-- What a call at a stage has done to the cache and the counts since it was made. -/
structure Tally (s t : Store) (call : Call) : Prop where
  settings : t.settings = s.settings
  now : t.cache.now = s.cache.now
  kept : t.cache.dropped = s.cache.dropped
  sweeps : t.cache.sweeps = (call.stage.checked s call.name).cache.sweeps
  started : t.started = (call.stage.checked s call.name).started
  others : ∀ n, n ≠ call.name → t.stamp? n = s.stamp? n
  own : t.stamp? call.name =
    call.stage.stampAfter call.name call.operation s.cache.now (s.stamp? call.name)
  asked : call.operation = .get → t.encryptions = s.encryptions ∧
    ∃ count, t.decryptions = s.decryptions + count ∧
      call.stage.Asked s.settings.masterKey.isSome (s.stamp? call.name) count

/-- A call that has only been made has done nothing. -/
theorem tally_call (s : Store) (id : Nat) (name : String) (operation : Operation) :
    s.Tally (s.call id name operation) ⟨name, operation, .start⟩ :=
  ⟨rfl, rfl, rfl, rfl, rfl, fun _ _ => rfl, rfl, fun _ => ⟨rfl, 0, rfl, rfl⟩⟩

/-- A call that gets a key asks for no ciphertext. -/
theorem Next.asksEncryption_eq_false {stage' : Stage} {change : Change}
    (h : Next s id name .get reply stage change stage') (hfits : stage.Fits s.settings name .get) :
    stage'.asksEncryption = false := by
  cases h with
  | sealing => cases hfits.2
  | _ => rfl

/-- Which sweeps are started depends on the sweeps, the clock and the settings. -/
theorem opened_congr (hsettings : t.settings = s.settings) (hstarted : t.started = s.started)
    (hnow : t.cache.now = s.cache.now) (hsweeps : t.cache.sweeps = s.cache.sweeps) (name : String) :
    (t.opened name).cache.sweeps = (s.opened name).cache.sweeps ∧
      (t.opened name).started = (s.opened name).started := by
  unfold opened startSweeps SweptCache.startSweep
  rw [hstarted, hsettings, hnow]
  by_cases hvalid : KeyName.Valid name
  · by_cases hs : s.started = true
    · simp only [hvalid, hs, if_true]
      exact ⟨hsweeps, hstarted.trans hs⟩
    · simp only [hvalid, hs, if_true]
      cases Sweep.start? .created s.cache.now s.settings.expiry <;>
        simp only [hnow] <;>
        cases Sweep.start? .unused s.cache.now s.settings.unusedExpiry <;> simp [hsweeps]
  · simp only [hvalid, if_false]
    exact ⟨hsweeps, hstarted⟩

/-- The cache after a step: the clock stands still, and the sweeps are those that the check of the
name has started. -/
theorem Tally.cacheAfter (h : s.Tally t call) :
    (call.stage.cacheAfter t call.name).now = s.cache.now ∧
      (call.stage.cacheAfter t call.name).dropped = s.cache.dropped ∧
      (call.stage.cacheAfter t call.name).sweeps = (s.opened call.name).cache.sweeps ∧
      call.stage.startedAfter t call.name = (s.opened call.name).started := by
  have hsweeps := h.sweeps
  have hstarted := h.started
  cases hstage : call.stage with
  | start =>
    rw [hstage] at hsweeps hstarted
    obtain ⟨hsweeps', hstarted'⟩ := opened_congr h.settings hstarted h.now hsweeps call.name
    obtain ⟨sweeps, hopened⟩ := t.exists_opened call.name
    refine ⟨?_, ?_, hsweeps', hstarted'⟩ <;> rw [Stage.cacheAfter, hopened]
    exacts [h.now, h.kept]
  | work w =>
    rw [hstage] at hsweeps hstarted
    cases w <;> exact ⟨h.now, h.kept, hsweeps, hstarted⟩
  | _ =>
    rw [hstage] at hsweeps hstarted
    exact ⟨h.now, h.kept, hsweeps, hstarted⟩

/-- No step leads back to the start. -/
theorem Next.ne_start {stage' : Stage} {change : Change}
    (h : Next s id name operation reply stage change stage') : stage' ≠ .start := by
  rintro rfl
  cases h

theorem checked_of_ne_start (h : stage ≠ .start) (s : Store) (name : String) :
    stage.checked s name = s.opened name := by
  cases stage <;> first | rfl | exact absurd rfl h

/-- Each step of a call keeps the tally. -/
theorem Tally.step (h : s.Tally t call) (hsound : t.Sound) (hcall : t.calls.find? id = some call)
    (reply : Reply) :
    s.Tally (t.step id reply) { call with stage := (t.perform id call reply).2 } := by
  have hfits := hsound.fits id call hcall
  obtain ⟨⟨change, hadv⟩, -⟩ := exists_advances_perform hcall hfits reply
  have hnext := hadv.next
  obtain ⟨hcache, hstarted, hencryptions, hdecryptions⟩ := spends_perform id reply hfits
  obtain ⟨hnow, hkept, hsweeps, hopened⟩ := h.cacheAfter
  -- the step keeps the new stage of the call, besides
  have hstep : t.step id reply = { (t.perform id call reply).1 with
      calls := (t.perform id call reply).1.calls.insert id
        { call with stage := (t.perform id call reply).2 } } := by
    rw [Store.step, hcall]
  have hstamp (n : String) : (t.step id reply).stamp? n = if n = call.name then
      call.stage.restamp t.cache.now (t.stamp? call.name) else t.stamp? n := by
    rw [hstep, ← stamp?_cacheAfter, ← hcache]
    rfl
  have hchecked := checked_of_ne_start hnext.ne_start s call.name
  refine ⟨hadv.settings.trans h.settings, ?_, ?_, ?_, ?_, fun n hn => ?_, ?_, fun hget => ?_⟩
  · rw [hstep, ← hnow, ← hcache]
  · rw [hstep, ← hkept, ← hcache]
  · rw [hstep, hchecked, ← hsweeps, ← hcache]
  · rw [hstep, hchecked, ← hopened, ← hstarted]
  · rw [hstamp, if_neg hn, h.others n hn]
  · rw [hstamp, if_pos rfl, h.now, h.own]
    exact hnext.stampAfter hfits h.own
  · obtain ⟨hencrypted, count, hcount, hasked⟩ := h.asked hget
    rw [hget] at hfits hnext
    refine ⟨?_, count + if (t.perform id call reply).2.asksDecryption then 1 else 0, ?_, ?_⟩
    · rw [hstep, ← hencrypted]
      simp only [hencryptions, hnext.asksEncryption_eq_false hfits]
      rfl
    · rw [hstep, ← Nat.add_assoc, ← hcount]
      exact hdecryptions
    · rw [← h.settings] at hasked ⊢
      refine hnext.asked hfits (fun hlookUp => ?_) hasked
      rw [h.own, hlookUp]
      rfl

/-- So does a run of the call. -/
theorem Tally.runFor {answers : Nat → Stage → Reply} {steps : Nat} (h : s.Tally t call)
    (hsound : t.Sound) (hcall : t.calls.find? id = some call) :
    ∃ stage, (t.runFor answers id steps).calls.find? id = some { call with stage } ∧
      s.Tally (t.runFor answers id steps) { call with stage } := by
  induction steps generalizing t call with
  | zero => exact ⟨call.stage, hcall, h⟩
  | succ steps ih =>
    have hfound : t.stage? id = some call.stage := by rw [stage?, hcall]; rfl
    obtain ⟨⟨change, hadv⟩, -⟩ :=
      exists_advances_perform hcall (hsound.fits id call hcall) (answers steps call.stage)
    have hcall' := hadv.calls id
    rw [if_pos rfl] at hcall'
    have hrun := ih (h.step hsound hcall _) (hsound.step hcall _) hcall'
    rw [Store.runFor, hfound]
    exact hrun

/-- **What a call has done to the cache and the counts** when it has ended. -/
theorem tally_act {environment : Environment} {n : Nat} {outcome : Outcome} (hsound : s.Sound)
    (hfresh : s.calls.find? n = none)
    (houtcome : (s.act environment n (.call name operation)).outcome? n = some outcome) :
    s.Tally (s.act environment n (.call name operation)) ⟨name, operation, .finished outcome⟩ := by
  have hcall : (s.call n name operation).calls.find? n = some ⟨name, operation, .start⟩ := by
    simp [Store.call]
  have hrun : ∃ stage, (s.act environment n (.call name operation)).calls.find? n =
        some ⟨name, operation, stage⟩ ∧
      s.Tally (s.act environment n (.call name operation)) ⟨name, operation, stage⟩ :=
    (tally_call s n name operation).runFor (hsound.newCall hfresh name operation) hcall
  obtain ⟨stage, hfound, htally⟩ := hrun
  obtain ⟨_, hfound', hover⟩ := outcome?_eq_some_iff.1 houtcome
  obtain rfl := Option.some.inj (hfound.symm.trans hfound')
  obtain rfl : stage = .finished outcome := hover
  exact htally

end

end Keyring.Store
