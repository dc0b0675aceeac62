import Keyring.Proofs.Store.Completion
import Keyring.Proofs.Store.OtherFiles
import Keyring.Store.Alone

/-!
# A call whose record is written at once

A program that makes one call and ends needs neither a bound on the size of a record nor patience:
where the device takes all that is left of a record at once, every step brings a call nearer to its
end, by the rank of its stage. `runAlone` makes more steps than any call then has.

- `Reply.TakesAll`, `Solitary`: such answers, and a call that nobody keeps waiting;
- `Solitary.rank_le`, `runSteps_ends`: it comes to its end in as many steps as its rank;
- `Idle.runAlone`: how a call ends that is run alone, what is held then, and which files are as
  before;
- `runAlone_create_memory`: in memory a key is created whatever its record.
-/

namespace Keyring.Store

/-- The device takes all that is left of a record. -/
def Reply.TakesAll (reply : Reply) (stage : Stage) : Prop :=
  ∀ secret record written, stage = .work (.write secret record written) →
    ∃ limit, reply.device = .accept limit ∧ record.length ≤ written + (limit + 1)

/-- A call that is the only one to use a lock. -/
structure Solitary (s : Store) (id : Nat) (call : Call) : Prop where
  sound : s.Sound
  served : s.locks.Served
  alone : ∀ j, j ≠ id → s.user? j = none
  found : s.calls.find? id = some call

/-- A call that is to create a key in memory, where its name is free, does so. -/
def Stage.Creates (s : Store) (name : String) : Stage → Prop
  | .start | .lookUpNew _ | .record _ => s.slot name = ⟨none, none⟩
  | .encrypt _ => s.slot name = ⟨none, none⟩ ∧ s.settings.masterKey ≠ none
  | .obtain (.insert _ _) | .request (.insert _ _) | .wait (.insert _ _)
  | .work (.insert _ _) => s.record? name = none
  | .work (.cacheCreated _) => True
  | .leave outcome | .finished outcome => outcome = .ok .done
  | _ => False

variable {s t : Store} {id : Nat} {name directory : String} {operation : Operation}
  {reply : Reply} {call : Call} {stage : Stage} {change : Change} {keys : MasterKeys}
  {nonce : Cipher.Nonce} {opens : Ciphertext → Option Secret} {before : Slot}

/-! ### Nearer to the end -/

/-- All that is left of a record is written in one step. -/
theorem rank_write_le {secret : Secret} {record : List UInt8} {written limit : Nat}
    (h : record.length ≤ written + (limit + 1)) :
    (s.write directory name secret record written (.accept limit)).2.rank ≤ 4 := by
  unfold write
  dsimp only
  split
  · simp [failWrite, Stage.rank, Work.rank]
  · rw [if_neg (Nat.not_lt.2 h)]
    exact Nat.le_refl 4

theorem Lone.solitary (h : Lone opens before s id call) : s.Solitary id call :=
  ⟨h.sound, h.served, h.alone, h.found⟩

/-- A call that nobody keeps waiting makes its next step. -/
theorem Solitary.step (h : s.Solitary id call) (reply : Reply) :
    (s.step id reply).Solitary id { call with stage := (s.perform id call reply).2 } := by
  obtain ⟨⟨change, hadv⟩, -⟩ :=
    exists_advances_perform h.found (h.sound.fits id call h.found) reply
  refine ⟨h.sound.advances h.found hadv, hadv.served h.served, fun j hj => ?_,
    by rw [hadv.calls, if_pos rfl]⟩
  rw [hadv.user?_eq, Function.update_of_ne hj, h.alone j hj]

/-- Such a call has its lock as soon as it waits for it. -/
theorem Solitary.isHeldBy {w : Work} (h : s.Solitary id call) (hwait : call.stage = .wait w) :
    s.locks.isHeldBy id = true := by
  have hlocked := h.sound.locked id call h.found
  rw [hwait] at hlocked
  exact h.sound.agrees.isHeldBy_of_alone h.served hlocked h.alone

/-- Each step leads nearer to the end. -/
theorem Solitary.rank_le (h : s.Solitary id call) (htakes : reply.TakesAll call.stage) :
    (s.perform id call reply).2.rank ≤ call.stage.rank - 1 := by
  obtain ⟨⟨change, hadv⟩, -⟩ :=
    exists_advances_perform h.found (h.sound.fits id call h.found) reply
  cases hover : call.stage.isOver with
  | true =>
    obtain ⟨outcome, hstage⟩ := exists_finished hover
    simp [perform, hstage, Stage.rank]
  | false =>
    rcases hadv.next.nearer hover fun w => h.isHeldBy with hlt | ⟨-, hlt⟩
    · exact Nat.le_sub_one_of_lt hlt
    · -- there is something left to write, and the device takes it
      cases hstage : call.stage with
      | work w =>
        cases w with
        | write secret record written =>
          obtain ⟨limit, hdevice, hall⟩ := htakes secret record written hstage
          have hfits := h.sound.fits id call h.found
          rw [hstage] at hfits
          obtain ⟨directory, hfiles⟩ := exists_files hfits.2.2
          simp only [perform, hstage, doWork, hfiles, hdevice]
          exact rank_write_le hall
        | _ =>
          rw [hstage] at hlt
          exact absurd hlt (Nat.not_lt_zero _)
      | _ =>
        rw [hstage] at hlt
        exact absurd hlt (Nat.not_lt_zero _)

theorem takesAll_reply (keys : MasterKeys) (masterKey : Option String) (nonce : Cipher.Nonce)
    (stage : Stage) : (stage.reply keys masterKey nonce).TakesAll stage := by
  rintro secret record written rfl
  exact ⟨record.length, rfl, by omega⟩

/-- As many steps as the rank of its stage lead a call to its end. What its steps keep holds
there. -/
theorem runSteps_ends {P : Store → Call → Prop} {steps : Nat}
    (hsolitary : ∀ s call, P s call → s.Solitary id call)
    (hstep : ∀ s call, P s call →
      P (s.step id (call.stage.reply keys s.settings.masterKey nonce))
        { call with stage :=
            (s.perform id call (call.stage.reply keys s.settings.masterKey nonce)).2 })
    {s : Store} {call : Call} (h : P s call) (hsteps : call.stage.rank ≤ steps) :
    ∃ outcome, P (runSteps keys nonce id steps s) { call with stage := .finished outcome } := by
  induction steps generalizing s call with
  | zero =>
    -- no stage but the last has this rank
    obtain ⟨outcome, hover⟩ : ∃ outcome, call.stage = .finished outcome := by
      cases hat : call.stage with
      | finished outcome => exact ⟨outcome, rfl⟩
      | work w => cases w <;> simp [hat, Stage.rank, Work.rank] at hsteps
      | _ => simp [hat, Stage.rank] at hsteps
    refine ⟨outcome, ?_⟩
    rw [runSteps, ← hover]
    exact h
  | succ steps ih =>
    have hs := hsolitary s call h
    have hstage : s.stage? id = some call.stage := by rw [stage?, hs.found]; rfl
    have hrank := hs.rank_le (takesAll_reply keys s.settings.masterKey nonce call.stage)
    obtain ⟨outcome, hend⟩ := ih (hstep s call h) (Nat.le_trans hrank (Nat.sub_le_of_le_add hsteps))
    refine ⟨outcome, ?_⟩
    rw [runSteps, hstage]
    exact hend

/-! ### A call run alone -/

/-- **A call run alone.** A call of an idle store comes to its end, and all that it touches is what
is held under its name. -/
theorem Idle.runAlone (h : s.Idle) (hfresh : s.calls.find? id = none) (name : String)
    (operation : Operation)
    (hfaithful : ∀ stage : Stage, stage.Fits s.settings name operation →
      (stage.reply keys s.settings.masterKey nonce).Faithful s.settings opens stage) :
    ∃ outcome, ∃ t, s.runAlone keys nonce id name operation = (some outcome, t) ∧ t.Idle ∧
      s.Apart t id name ∧ s.KeepsFiles t name ∧
      Finishes s.settings opens name (s.slot name) operation outcome (t.slot name) := by
  -- what holds after each step
  let P (t : Store) (call : Call) : Prop :=
    Lone opens (s.slot name) t id call ∧ s.Apart t id name ∧ s.KeepsFiles t name ∧
      call.name = name ∧ call.operation = operation
  have hstart : P (s.call id name operation) ⟨name, operation, .start⟩ :=
    ⟨h.lone hfresh opens name operation, apart_call s id name operation, keepsFiles_of_eq rfl,
      rfl, rfl⟩
  have hstep (t : Store) (call : Call) (ht : P t call) :
      P (t.step id (call.stage.reply keys t.settings.masterKey nonce))
        { call with stage :=
            (t.perform id call (call.stage.reply keys t.settings.masterKey nonce)).2 } := by
    obtain ⟨hlone, hapart, hkeeps, rfl, rfl⟩ := ht
    have hfits := hlone.sound.fits id call hlone.found
    have hreply := hapart.settings ▸ hfaithful call.stage (hapart.settings ▸ hfits)
    obtain ⟨stage, hlone', hapart', -⟩ := hlone.step hreply
    have hsame := hlone'.found.symm.trans (hlone.solitary.step _).found
    rw [← Option.some.inj hsame]
    exact ⟨hlone', hapart.trans hapart',
      hkeeps.trans (keepsFiles_step hlone.found hfits _) hapart.settings, rfl, rfl⟩
  have hrank : Stage.start.rank ≤ longestCall := by decide
  obtain ⟨outcome, hlone, hapart, hkeeps, -⟩ :=
    runSteps_ends (fun t call ht => ht.1.solitary) hstep hstart hrank
  refine ⟨outcome, _, ?_, hlone.idle h hapart, hapart, hkeeps, hapart.settings ▸ hlone.midway⟩
  exact Prod.ext (outcome?_eq_some_iff.2 ⟨_, hlone.found, rfl⟩) rfl

/-! ### Creating a key in memory -/

/-- Each step leads on to the key, if its secret is encrypted where that is to be done. -/
theorem Advances.creates (h : s.Advances t id call reply change stage)
    (hmemory : s.settings.backend = .memory) (hvalid : KeyName.Valid call.name)
    (hop : ∃ secret, call.operation = .create secret)
    (hencrypted : ∀ secret, call.stage = .encrypt secret → ∃ c, reply.encrypted = .ok c)
    (hheld : ∀ w, call.stage = .wait w → s.locks.isHeldBy id = true)
    (hat : call.stage.Creates s call.name) : stage.Creates t call.name := by
  have hslot := h.slot_self
  have hrecord := h.record call.name
  have hnext := h.next
  obtain ⟨secret, hop⟩ := hop
  generalize hstage : call.stage = stage₀ at hnext hat hencrypted hheld
  cases hnext with
  | refused herror => simp [KeyName.validate_eq_ok_iff.2 hvalid] at herror
  | taken hcached =>
    have hnone : s.cached? call.name = none := congrArg Slot.cached hat
    simp [hnone] at hcached
  | plain =>
    have hnone : s.record? call.name = none := congrArg Slot.record hat
    simpa [Backend.storing, hmemory, Stage.Creates, hrecord, Change.recordAfter] using hnone
  | sealed =>
    have hnone : s.record? call.name = none := congrArg Slot.record hat.1
    simpa [Backend.storing, hmemory, Stage.Creates, hrecord, Change.recordAfter] using hnone
  | notSealed hfault =>
    obtain ⟨c, hc⟩ := hencrypted _ rfl
    cases hc.symm.trans hfault
  | waiting hfree =>
    have hheld := hheld _ rfl
    rw [hfree] at hheld
    cases hheld
  | insertTaken hrecord' => cases hrecord'.symm.trans hat
  | @obtain w | @request w | @granted w =>
    cases w with
    | insert => simpa [Stage.Creates, hrecord, Change.recordAfter] using hat
    | _ => exact hat.elim
  | create | free => exact hslot.trans hat
  | sealing hkey => exact ⟨hslot.trans hat, by simp [h.settings, hkey]⟩
  | _ => simp_all [Stage.Creates]

/-- **Keys in memory.** A new store in memory creates a key whatever its record, if the name is
valid and the secret is encrypted where there is a master key. -/
theorem runAlone_create_memory {settings : Settings} {disk : Disk} {now : Nat}
    (hmemory : settings.backend = .memory) (hvalid : KeyName.Valid name)
    (hkey : ∀ key secret, settings.masterKey = some key →
      ∃ c, keys.encrypt nonce key secret = .ok c) (secret : Secret) :
    ∃ t, (new settings disk now).runAlone keys nonce id name (.create secret) =
      (some (.ok .done), t) ∧ (new settings disk now).KeepsFiles t name := by
  let s := new settings disk now
  have hidle : s.Idle := idle_new (fun directory hfiles => by cases hmemory.symm.trans hfiles) now
  let P (t : Store) (call : Call) : Prop :=
    t.Solitary id call ∧ t.settings = settings ∧ s.KeepsFiles t name ∧ call.name = name ∧
      call.operation = .create secret ∧ call.stage.Creates t name
  have hstart : P (s.call id name (.create secret)) ⟨name, .create secret, .start⟩ := by
    refine ⟨(hidle.lone rfl (fun _ => none) name (.create secret)).solitary, rfl,
      keepsFiles_of_eq rfl, rfl, rfl, Slot.ext ?_ rfl⟩
    simp [slot, Store.call, s, new, record?, hmemory]
  have hstep (t : Store) (call : Call) (ht : P t call) :
      P (t.step id (call.stage.reply keys t.settings.masterKey nonce))
        { call with stage :=
            (t.perform id call (call.stage.reply keys t.settings.masterKey nonce)).2 } := by
    obtain ⟨hsolitary, hsettings, hkeeps, rfl, hop, hcreates⟩ := ht
    have hfits := hsolitary.sound.fits id call hsolitary.found
    obtain ⟨⟨change, hadv⟩, -⟩ := exists_advances_perform hsolitary.found hfits
      (call.stage.reply keys t.settings.masterKey nonce)
    refine ⟨hsolitary.step _, hadv.settings.trans hsettings,
      hkeeps.trans (keepsFiles_step hsolitary.found hfits _) hsettings, rfl, hop,
      hadv.creates (hsettings ▸ hmemory) hvalid ⟨secret, hop⟩ (fun x hx => ?_)
        (fun w => hsolitary.isHeldBy) hcreates⟩
    -- the secret is encrypted only where there is a master key
    rw [hx] at hcreates
    obtain ⟨key, hmaster⟩ := Option.ne_none_iff_exists'.1 hcreates.2
    obtain ⟨c, hc⟩ := hkey key x (hsettings ▸ hmaster)
    exact ⟨c, by simpa [hx, Stage.reply, hmaster] using hc⟩
  have hrank : Stage.start.rank ≤ longestCall := by decide
  obtain ⟨outcome, hend, -, hkeeps, -, -, hdone⟩ :=
    runSteps_ends (fun t call ht => ht.1) hstep hstart hrank
  refine ⟨_, Prod.ext ?_ rfl, hkeeps⟩
  exact outcome?_eq_some_iff.2 ⟨_, hend.found, congrArg Stage.finished hdone⟩

end Keyring.Store
