import Keyring.Proofs.Ciphertext.Distinct
import Keyring.Proofs.Store.Drafts
import Keyring.Proofs.Store.Footprint
import Keyring.Proofs.Store.Lasting
import Keyring.Proofs.Store.Logging
import Keyring.Proofs.Store.ReadLimit
import Keyring.Proofs.Store.Refetch

/-!
# Records of the other format

A store without a master key writes the digits of secrets, and one with a master key the records of
ciphertexts. Neither reads what the other one has written, not even a part of it: a store with a
master key never asks for the decryption of such a record, so that it does not matter what its key
management system would make of it, and says that the key is sealed; one without says that the
secret is malformed.

- `Foreign`, `Refusal`: records of stores of the other kind, and how they are refused;
- `follow`, `mem_stepsOf`: what each of its steps keeps of a call holds after a run;
- `Refuses`, `refuses_foreign`: what a call has done that has read a foreign record;
- `Declining`, `Quiet.refuses_foreign`: a call on its own comes to that end;
- `Authored`: what a store has written is foreign to stores of the other kind;
- `formats_never_confused`: all this together.
-/

namespace Keyring.Store

/-- A record that a store of the other kind reads, wherever it keeps it, or that it has written, as
a whole or in part. -/
def Foreign (masterKey : Option String) (record : List UInt8) : Prop :=
  match masterKey with
  | none => (∃ (backend : Backend) (c : Ciphertext),
      Ciphertext.ofRecord (backend.readable record) = .ok c) ∨
    ∃ c : Ciphertext, record <+: c.toRecord
  | some _ => (∃ (backend : Backend) (secret : Secret),
      Secret.ofRecord (backend.readable record) = .ok secret) ∨
    ∃ secret, record <+: plainRecord secret

/-- The error with which a foreign record is refused. -/
def Refusal (masterKey : Option String) : Error → Prop
  | .keySealed => masterKey ≠ none
  | .malformedSecret _ => masterKey = none
  | _ => False

/-- A step of a call that reads a record. -/
structure Taken.Reads (m : Taken) (record : List UInt8) : Prop where
  stage : m.call.stage = .work .read
  record : m.store.record? m.call.name = some record
  fetched : m.store.fetched? m.call.name m.reply.device ≠ none

/-- A call is about to end, or has ended, with an error. -/
def Stage.EndsWith (error : Error) (stage : Stage) : Prop :=
  stage = .leave (.error error) ∨ stage = .finished (.error error)

/-- The steps that a call has made when it is at a stage: it has read its record once, and if that
was refused the call asks for no decryption and ends with the error. -/
structure Refuses (made : List Taken) (stage : Stage) : Prop where
  pastRead : ∀ m ∈ made, m.next.pastRead = true → stage.pastRead = true
  ends : ∀ m ∈ made, m.call.stage = .work .read → ∀ error, m.next = .leave (.error error) →
    stage.EndsWith error ∧ ∀ other ∈ made, other.next.asksDecryption = false

/-- A record that a store writes, as a whole. -/
def Settings.Writes (settings : Settings) (record : List UInt8) : Prop :=
  match settings.masterKey with
  | none => ∃ secret, record = plainRecord secret
  | some _ => ∃ c : Ciphertext, record = c.toRecord

/-- The records of a store are those that it had at first and parts of what it writes. -/
structure Authored (first : String → Option (List UInt8)) (s : Store) : Prop where
  drafted : ∀ name, s.Drafted name
  brings : ∀ id call, s.calls.find? id = some call →
    call.stage.Brings s.settings fun _ record => s.settings.Writes record
  records : ∀ name record, s.record? name = some record →
    first name = some record ∨ ∃ whole, s.settings.Writes whole ∧ record <+: whole

section

variable {s t : Store} {id : Nat} {name : String} {operation : Operation} {reply : Reply}
  {call : Call} {stage stage' : Stage} {change : Change} {record : List UInt8}
  {masterKey : Option String} {settings : Settings} {device : Disk.Reply}

/-! ### What is read of a foreign record -/

/-- With a master key, a foreign record is read as no ciphertext. -/
theorem Foreign.ofRecord_ne_ok {key : String} (h : Foreign (some key) record) (backend : Backend)
    (c : Ciphertext) : Ciphertext.ofRecord (backend.readable record) ≠ .ok c := by
  rcases h with ⟨other, secret, hsecret⟩ | ⟨secret, hpart⟩
  · rw [ofRecord_readable, ← ofRecord_readable other]
    exact Ciphertext.ofRecord_ne_ok_of_secret hsecret c
  · have hread : backend.readable record <+: plainRecord secret := by
      apply List.IsPrefix.trans ?_ hpart
      exact readable_prefix backend record
    rw [plainRecord, Text.Utf8.ofString, Secret.toHex, Text.Hex.ofBytes, String.toList_ofList]
      at hread
    exact Ciphertext.ofRecord_ne_ok_of_prefix_encode hread c

/-- Without one, it is read as no secret. -/
theorem Foreign.ofRecord_ne_ok_secret (h : Foreign none record) (backend : Backend)
    (secret : Secret) : Secret.ofRecord (backend.readable record) ≠ .ok secret := by
  rcases h with ⟨other, c, hc⟩ | ⟨c, hpart⟩
  · intro hsecret
    rw [ofRecord_readable, ← ofRecord_readable backend] at hc
    exact Ciphertext.ofRecord_ne_ok_of_secret hsecret c hc
  · have hread : backend.readable record <+: c.toRecord := by
      apply List.IsPrefix.trans ?_ hpart
      exact readable_prefix backend record
    exact Secret.ofRecord_ne_ok_of_prefix hread secret

/-- A foreign record is refused. -/
theorem Foreign.understand (h : Foreign s.settings.masterKey record) (backend : Backend) :
    ∃ error, Refusal s.settings.masterKey error ∧
      (s.understand name (backend.readable record)).2 = .leave (.error error) := by
  unfold Store.understand
  cases hkey : s.settings.masterKey with
  | none =>
    rw [hkey] at h
    cases hread : Secret.ofRecord (backend.readable record) with
    | ok secret => exact absurd hread (h.ofRecord_ne_ok_secret backend secret)
    | error fault => exact ⟨fault.toError, rfl, rfl⟩
  | some key =>
    rw [hkey] at h
    cases hread : Ciphertext.ofRecord (backend.readable record) with
    | ok c => exact absurd hread (h.ofRecord_ne_ok backend c)
    | error error => exact ⟨.keySealed, by simp [Refusal], rfl⟩

/-- As much is read of a record as the backend reads. -/
theorem fetched?_eq_readable (hvalid : KeyName.Valid name) (hrecord : s.record? name = some record)
    (hfetched : s.fetched? name device ≠ none) :
    s.fetched? name device = some (s.settings.backend.readable record) := by
  unfold fetched? at hfetched ⊢
  unfold record? at hrecord
  cases hbackend : s.settings.backend with
  | memory =>
    rw [hbackend] at hrecord
    exact hrecord
  | files directory =>
    rw [hbackend] at hrecord hfetched
    cases device with
    | refuse fault => exact absurd rfl hfetched
    | accept limit =>
      dsimp only at hfetched ⊢
      cases hread : s.disk.read (path directory name) with
      | error fault =>
        rw [hread] at hfetched
        exact absurd rfl hfetched
      | ok content =>
        obtain rfl := Option.some.inj (hrecord.symm.trans ((Disk.read_eq_ok_iff hvalid).1 hread).2)
        rfl

/-- A call that reads a foreign record is about to leave with its refusal. -/
theorem Foreign.read (h : Foreign s.settings.masterKey record) (hvalid : KeyName.Valid name)
    (hrecord : s.record? name = some record) (hfetched : s.fetched? name device ≠ none) :
    ∃ error, Refusal s.settings.masterKey error ∧
      (s.read name device).2 = .leave (.error error) := by
  rw [read_of_fetched? (fetched?_eq_readable hvalid hrecord hfetched)]
  exact h.understand s.settings.backend

/-! ### Following a call -/

/-- What each of its steps keeps of a call holds after a run, of the steps that it has made and the
stage that it is at. -/
theorem follow {P : List Taken → Stage → Prop} {allows : Store → Occurrence → Prop}
    {occurrences : List Occurrence} {made : List Taken} (hsound : s.Sound)
    (hcall : s.calls.find? id = some ⟨name, operation, stage⟩)
    (hadmissible : Admissible allows s occurrences) (hspares : ∀ o ∈ occurrences, o.Spares id)
    (hstart : P made stage)
    (hstep : ∀ u made stage reply change next, u.Sound →
      stage.Fits u.settings name operation →
      Next u id name operation reply stage change next → P made stage →
        P (made ++ [⟨u, ⟨name, operation, stage⟩, reply, next⟩]) next) :
    ∃ stage', (s.occurAll occurrences).calls.find? id = some ⟨name, operation, stage'⟩ ∧
      P (made ++ s.stepsOf id occurrences) stage' := by
  induction occurrences generalizing s made stage with
  | nil => exact ⟨stage, hcall, by simpa [stepsOf] using hstart⟩
  | cons o occurrences ih =>
    obtain ⟨hfresh, hallows, hrest⟩ := hadmissible
    have hone : Admissible allows s [o] := ⟨hfresh, hallows, trivial⟩
    have hsound' : (s.occur o).Sound := hone.sound hsound
    have hspares' : ∀ p ∈ occurrences, p.Spares id := fun p hp =>
      hspares p (List.mem_cons_of_mem o hp)
    rw [stepsOf, ← List.append_assoc]
    rcases occur_cases hcall hsound hfresh (hspares o List.mem_cons_self) with ⟨reply, rfl⟩ | hother
    · have hfits := hsound.fits id _ hcall
      obtain ⟨⟨change, hadv⟩, -⟩ := exists_advances_perform hcall hfits reply
      have hcall' := hadv.calls id
      rw [if_pos rfl] at hcall'
      refine ih hsound' hcall' hrest hspares' ?_
      rw [stepOf, if_pos rfl, hcall]
      exact hstep s made stage reply change _ hsound hfits hadv.next hstart
    · obtain ⟨-, hfind, hstepOf, -⟩ := hother
      refine ih hsound' (hfind.trans hcall) hrest hspares' ?_
      rwa [hstepOf, Option.toList_none, List.append_nil]

/-- The steps that a call makes in a run are its steps in stores of the run. -/
theorem mem_stepsOf {allows : Store → Occurrence → Prop} {occurrences : List Occurrence}
    (hsound : s.Sound) (hadmissible : Admissible allows s occurrences) {m : Taken}
    (hm : m ∈ s.stepsOf id occurrences) :
    m.store.Sound ∧ m.store.settings = s.settings ∧ m.store.calls.find? id = some m.call ∧
      m.next = (m.store.perform id m.call m.reply).2 := by
  induction occurrences generalizing s with
  | nil => cases hm
  | cons o occurrences ih =>
    obtain ⟨hfresh, hallows, hrest⟩ := hadmissible
    have hone : Admissible allows s [o] := ⟨hfresh, hallows, trivial⟩
    rcases List.mem_append.1 hm with hm | hm
    · -- the step is made now
      unfold stepOf at hm
      split at hm
      case h_2 => cases hm
      case h_1 j reply =>
        split at hm
        case isFalse => cases hm
        case isTrue hj =>
          subst hj
          obtain ⟨call, hcall, rfl⟩ := Option.map_eq_some_iff.1 (Option.mem_toList.1 hm)
          exact ⟨hsound, rfl, hcall, rfl⟩
    · obtain ⟨hsound', hsettings, hrest'⟩ := ih (hone.sound hsound) hrest hm
      exact ⟨hsound', hsettings.trans (hone.settings_eq hsound), hrest'⟩

/-! ### A call that has read a foreign record -/

theorem pastRead_of_asksDecryption (h : stage.asksDecryption = true) : stage.pastRead = true := by
  cases stage with
  | work w =>
    cases w with
    | decrypt c => rfl
    | _ => cases h
  | _ => cases h

/-- A call that ends with an error goes on to end with it. -/
theorem Stage.EndsWith.next {error : Error} (h : stage.EndsWith error)
    (hnext : Next s id name operation reply stage change stage') :
    stage' = .finished (.error error) := by
  rcases h with rfl | rfl
  · cases hnext
    rfl
  · cases hnext
    rfl

/-- Each step of a call keeps to what it has done. -/
theorem Refuses.step {made : List Taken} (h : Refuses made stage)
    (hnext : Next s id name operation reply stage change stage') :
    Refuses (made ++ [⟨s, ⟨name, operation, stage⟩, reply, stage'⟩]) stage' where
  pastRead m hm hpast := by
    rcases List.mem_append.1 hm with hm | hm
    · exact (hnext.pastRead (h.pastRead m hm hpast)).1
    · rwa [List.mem_singleton.1 hm] at hpast
  ends m hm hread error herror := by
    rcases List.mem_append.1 hm with hm | hm
    · -- the record was read before
      obtain ⟨hends, hasks⟩ := h.ends m hm hread error herror
      obtain rfl := hends.next hnext
      refine ⟨.inr rfl, fun other hother => ?_⟩
      rcases List.mem_append.1 hother with hother | hother
      · exact hasks other hother
      · rw [List.mem_singleton.1 hother]
        rfl
    · -- the record is read now, so that nothing was asked before
      obtain rfl := List.mem_singleton.1 hm
      obtain rfl : stage = .work .read := hread
      obtain rfl : stage' = .leave (.error error) := herror
      refine ⟨.inl rfl, fun other hother => ?_⟩
      rcases List.mem_append.1 hother with hother | hother
      · by_contra hasks
        have hpast := pastRead_of_asksDecryption (by simpa using hasks)
        cases h.pastRead other hother hpast
      · rw [List.mem_singleton.1 hother]
        rfl

/-- In any run, a call that reads a foreign record asks for no decryption and ends with its
refusal. -/
theorem refuses_foreign {allows : Store → Occurrence → Prop} {occurrences : List Occurrence}
    {m : Taken} (hsound : s.Sound) (hcall : s.calls.find? id = some ⟨name, operation, .start⟩)
    (hadmissible : Admissible allows s occurrences) (hspares : ∀ o ∈ occurrences, o.Spares id)
    (hm : m ∈ s.stepsOf id occurrences) (hreads : m.Reads record)
    (hforeign : Foreign s.settings.masterKey record) :
    (∀ other ∈ s.stepsOf id occurrences, other.next.asksDecryption = false) ∧
      ∃ error, Refusal s.settings.masterKey error ∧ m.next = .leave (.error error) ∧
        ∀ outcome, (s.occurAll occurrences).outcome? id = some outcome →
          outcome = .error error := by
  obtain ⟨hsound', hsettings, hfound, hnext⟩ := mem_stepsOf hsound hadmissible hm
  have hfits := hsound'.fits id _ hfound
  rw [hreads.stage] at hfits
  rw [← hsettings] at hforeign ⊢
  obtain ⟨error, hrefusal, herror⟩ := hforeign.read hfits.1 hreads.record hreads.fetched
  have hleaves : m.next = .leave (.error error) := by
    rw [hnext, perform, hreads.stage]
    exact herror
  have hstart : Refuses [] .start := ⟨by simp, by simp⟩
  obtain ⟨stage, hlast, hrefuses⟩ := follow hsound hcall hadmissible hspares hstart
    fun _ _ _ _ _ _ _ _ hnext h => h.step hnext
  obtain ⟨hends, hasks⟩ := hrefuses.ends m hm hreads.stage error hleaves
  refine ⟨hasks, error, hrefusal, hleaves, fun outcome houtcome => ?_⟩
  obtain ⟨_, hlast', hover⟩ := outcome?_eq_some_iff.1 houtcome
  obtain rfl := Option.some.inj (hlast.symm.trans hlast')
  rcases hends with rfl | rfl
  · cases hover
  · cases hover
    rfl

/-! ### A call on its own -/

/-- A call that gets a key has changed nothing on its way to its record, or is about to end with the
refusal of a foreign one. -/
def Declining (s t : Store) (id : Nat) (name : String) : Prop :=
  ∃ stage, t.calls.find? id = some ⟨name, .get, stage⟩ ∧
    (s.Seeking t id name stage ∨
      ∃ error, Refusal s.settings.masterKey error ∧ stage.EndsWith error ∧
        t.decryptions = s.decryptions)

/-- Each step of such a call keeps it so. -/
theorem Declining.step (h : s.Declining t id name) (hsound : t.Sound) (hvalid : KeyName.Valid name)
    (hrecord : s.record? name = some record) (hfetched : s.fetched? name reply.device ≠ none)
    (hforeign : Foreign s.settings.masterKey record) : s.Declining (t.step id reply) id name := by
  obtain ⟨stage, hfound, hstage⟩ := h
  have hfits := hsound.fits id _ hfound
  obtain ⟨⟨change, hadv⟩, -⟩ := exists_advances_perform hfound hfits reply
  have hcall := hadv.calls id
  rw [if_pos rfl] at hcall
  have hcount : (t.step id reply).decryptions = t.decryptions +
      if (t.perform id ⟨name, .get, stage⟩ reply).2.asksDecryption then 1 else 0 := by
    rw [Store.step, hfound]
    exact (spends_perform id reply hfits).decryptions
  -- what ends with an error costs nothing more
  have hends {error : Error} (hrefusal : Refusal s.settings.masterKey error)
      (hnext : (t.perform id ⟨name, .get, stage⟩ reply).2.EndsWith error)
      (hsame : t.decryptions = s.decryptions) : s.Declining (t.step id reply) id name := by
    refine ⟨_, hcall, .inr ⟨error, hrefusal, hnext, ?_⟩⟩
    rcases hnext with hnext | hnext
    · rw [hcount, hnext, hsame]
      rfl
    · rw [hcount, hnext, hsame]
      rfl
  rcases hstage with hseeking | ⟨error, hrefusal, hending, hsame⟩
  · rcases hseeking.stage with hseeks | rfl
    · obtain ⟨stage', hseeking'⟩ := hseeking.step hvalid hseeks reply
      exact ⟨stage', hseeking'.found, .inl hseeking'⟩
    · -- the record is read
      have hsettings := hseeking.settings
      rw [← hseeking.fetched?] at hfetched
      rw [← hseeking.record] at hrecord
      rw [← hsettings] at hforeign
      obtain ⟨error, hrefusal, hleaves⟩ := hforeign.read hvalid hrecord hfetched
      exact hends (hsettings ▸ hrefusal) (.inl hleaves) hseeking.decryptions
  · exact hends hrefusal (.inr (hending.next hadv.next)) hsame

/-- A call that gets a key of which a foreign record is held refuses it, in a store that is
otherwise quiet, whatever the key management system answers. -/
theorem Quiet.refuses_foreign {replies : Nat → Reply} (hquiet : s.Quiet)
    (hfresh : s.calls.find? id = none) (hvalid : KeyName.Valid name)
    (hmiss : s.cached? name = none) (hrecord : s.record? name = some record)
    (hfetched : ∀ i, s.fetched? name (replies i).device ≠ none)
    (hforeign : Foreign s.settings.masterKey record) :
    ∃ count error, Refusal s.settings.masterKey error ∧
      ((s.call id name .get).run (ownSteps id replies count)).outcome? id = some (.error error) ∧
      ((s.call id name .get).run (ownSteps id replies count)).decryptions = s.decryptions := by
  obtain ⟨count, outcome, houtcome⟩ :
      ∃ count outcome,
        ((s.call id name .get).run (ownSteps id replies count)).outcome? id = some outcome :=
    hquiet.ends hfresh (by decide) replies
  have hsound : (s.call id name .get).Sound := hquiet.sound.newCall hfresh name .get
  have hcall : (s.call id name .get).calls.find? id = some ⟨name, .get, .start⟩ := by
    simp [Store.call]
  have hstart : s.Declining (s.call id name .get) id name :=
    ⟨.start, hcall, .inl (seeking_call hquiet.sound hfresh hmiss)⟩
  have hrun : s.Declining ((s.call id name .get).run (ownSteps id replies count)) id name := by
    refine hsound.run_ownSteps (P := fun _ t => s.Declining t id name) hcall hstart ?_ count
    exact fun i t _ htsound _ _ h => h.step htsound hvalid hrecord (hfetched i) hforeign
  obtain ⟨stage, hfound, hstage⟩ := hrun
  obtain ⟨_, hfound', hover⟩ := outcome?_eq_some_iff.1 houtcome
  obtain rfl := Option.some.inj (hfound.symm.trans hfound')
  obtain rfl : stage = .finished outcome := hover
  rcases hstage with hseeking | ⟨error, hrefusal, hends, hcount⟩
  · rcases hseeking.stage with hseeks | hread
    · cases hseeks
    · cases hread
  · rcases hends with hleaves | hends
    · cases hleaves
    · obtain rfl : outcome = .error error := Stage.finished.inj hends
      exact ⟨count, error, hrefusal, houtcome, hcount⟩

/-! ### What a store writes -/

/-- What a store writes is foreign to stores of the other kind. -/
theorem Settings.Writes.foreign {whole : List UInt8} (h : settings.Writes whole)
    (hpart : record <+: whole) (hother : masterKey.isSome ≠ settings.masterKey.isSome) :
    Foreign masterKey record := by
  unfold Settings.Writes at h
  cases hkey : settings.masterKey with
  | none =>
    rw [hkey] at h hother
    obtain ⟨secret, rfl⟩ := h
    obtain ⟨key, rfl⟩ := Option.ne_none_iff_exists'.1 (show masterKey ≠ none by simpa using hother)
    exact .inr ⟨secret, hpart⟩
  | some key =>
    rw [hkey] at h hother
    obtain ⟨c, rfl⟩ := h
    obtain rfl : masterKey = none := by simpa using hother
    exact .inr ⟨c, hpart⟩

/-- A record after a step is one that was there before, or a part of what the call is to store. -/
theorem Next.record_cases (h : Next s id name operation reply stage change stage')
    (hdrafted : ∀ w, stage = .work w → w.Drafted s name)
    (hrecord : change.recordAfter (s.record? name) = some record) :
    s.record? name = some record ∨
      ∃ secret whole, stage.toStore? = some (secret, whole) ∧ record <+: whole := by
  cases h with
  | fileMade =>
    obtain rfl := Option.some.inj hrecord
    exact .inr ⟨_, _, rfl, List.nil_prefix⟩
  | inserted =>
    obtain rfl := Option.some.inj hrecord
    exact .inr ⟨_, _, rfl, List.prefix_rfl⟩
  | wroteSome hcontent | wroteAll hcontent =>
    -- the file has what the call has written of its record so far
    obtain ⟨hpart, hheld⟩ := hdrafted _ rfl
    obtain rfl := Option.some.inj (hcontent.symm.trans hheld)
    obtain rfl := Option.some.inj hrecord
    refine .inr ⟨_, _, rfl, ?_⟩
    rw [Disk.overwrite_take _ hpart]
    exact List.take_prefix _ _
  | removed | rolledBack => cases hrecord
  | _ => exact .inl hrecord

/-- Each step of a call leaves the records of the store its own. -/
theorem Authored.advances {first : String → Option (List UInt8)} (h : s.Authored first)
    (hsound : s.Sound) (hcall : s.calls.find? id = some call)
    (hadv : s.Advances t id call reply change stage) : t.Authored first where
  drafted := hadv.drafted hsound hcall h.drafted
  brings := by
    rw [hadv.settings]
    refine hadv.forall_calls ?_ fun j other _ hother => h.brings j other hother
    refine hadv.next.brings (h.brings id call hcall) (fun _ _ hwrites => hwrites)
      (fun hkey x => ?_) fun x c _ hkey _ => ?_
    · rw [Settings.Writes, hkey]
      exact ⟨x, rfl⟩
    · obtain ⟨key, hkey⟩ := Option.ne_none_iff_exists'.1 hkey
      rw [Settings.Writes, hkey]
      exact ⟨c, rfl⟩
  records n record hrecord := by
    rw [hadv.settings]
    rw [hadv.record] at hrecord
    split at hrecord
    case isFalse => exact h.records n record hrecord
    case isTrue hn =>
      subst hn
      have hdrafted (w : Work) (hw : call.stage = .work w) : w.Drafted s call.name :=
        (h.drafted call.name).stored id w ⟨call, hcall, rfl, hw⟩
      rcases hadv.next.record_cases hdrafted hrecord with hbefore | ⟨x, whole, hstore, hpart⟩
      · exact h.records _ record hbefore
      · exact .inr ⟨whole, (h.brings id call hcall).2 x whole hstore, hpart⟩

/-- Nothing that befalls a store puts records of others in it. -/
theorem Lawful.authored {allows : Store → Incident → Prop} {incidents : List Incident}
    {first : String → Option (List UInt8)} (hlawful : Lawful allows s incidents) (hsound : s.Sound)
    (h : s.Authored first) : (s.befallAll incidents).Authored first := by
  refine (hlawful.keeps (P := fun u => u.Authored first) ?_ ?_ ?_ ?_ ?_ hsound h).2
  case refine_1 =>
    intro u id name operation _ hu _ _
    refine ⟨fun n => (hu.drafted n).undisturbed (undisturbed_call ..), ?_, hu.records⟩
    exact forall_calls_call (brings_of_start_or_isOver (.inl rfl) _) hu.brings
  case refine_2 =>
    exact fun u id call reply change stage hsound hu hcall _ hadv => hu.advances hsound hcall hadv
  case refine_3 =>
    intro u v _ hu hfades
    refine ⟨fun n => (hu.drafted n).undisturbed (hfades.undisturbed n), ?_, ?_⟩
    · rw [hfades.settings, hfades.calls]
      exact hu.brings
    · intro n record hrecord
      rw [hfades.settings]
      rw [hfades.record?] at hrecord
      exact hu.records n record hrecord
  case refine_4 =>
    intro u id _ hu _
    refine ⟨fun n => (hu.drafted n).undisturbed (undisturbed_abandon u id n), ?_, hu.records⟩
    exact fun j call hcall => hu.brings j call (find?_of_abandon hcall).2
  case refine_5 =>
    intro u _ hu _
    refine ⟨fun n => drafted_of_no_calls rfl n, by simp [reopen, new], fun n record hrecord => ?_⟩
    -- what was in memory is gone
    by_cases hmemory : u.settings.backend = .memory
    · rw [record?, reopen, new, hmemory] at hrecord
      cases hrecord
    · rw [record?_reopen hmemory] at hrecord
      exact hu.records n record hrecord

theorem authored_new (settings : Settings) (disk : Disk) (now : Nat) :
    (new settings disk now).Authored (new settings disk now).record? where
  drafted := drafted_of_no_calls rfl
  brings := by simp [new]
  records _ _ hrecord := .inl hrecord

/-- **Records of the two formats are never confused.** No bytes are read both as a secret and as a
ciphertext. Whatever the key management system answers, and whatever else happens to the store, a
call that reads a foreign record asks for no decryption and ends with the refusal; on its own in a
quiet store, a call that gets a key of which a foreign record is held comes to that end. And
whatever a store has put among its records is foreign to stores of the other kind. -/
theorem formats_never_confused :
    (∀ record secret, Secret.ofRecord record = .ok secret →
      ∀ c, Ciphertext.ofRecord record ≠ .ok c) ∧
    (∀ settings disk now before after id name,
      Admissible (fun _ _ => True) (new settings disk now)
        (before ++ .incident (.move (.call id name .get)) :: after) →
      (∀ o ∈ after, o.Spares id) →
      let s := ((new settings disk now).occurAll before).call id name .get
      ∀ m ∈ s.stepsOf id after, ∀ record, m.Reads record → Foreign settings.masterKey record →
        (∀ other ∈ s.stepsOf id after, other.next.asksDecryption = false) ∧
        ∃ error, Refusal settings.masterKey error ∧ m.next = .leave (.error error) ∧
          ∀ outcome, (s.occurAll after).outcome? id = some outcome → outcome = .error error) ∧
    (∀ (s : Store) id name record (replies : Nat → Reply),
      s.Quiet → s.calls.find? id = none → KeyName.Valid name → s.cached? name = none →
      s.record? name = some record → (∀ i, s.fetched? name (replies i).device ≠ none) →
      Foreign s.settings.masterKey record →
        ∃ count error, Refusal s.settings.masterKey error ∧
          let t := (s.call id name .get).run (ownSteps id replies count)
          t.outcome? id = some (.error error) ∧ t.decryptions = s.decryptions) ∧
    ∀ settings disk now incidents, Lawful (fun _ _ => True) (new settings disk now) incidents →
      ∀ name record, ((new settings disk now).befallAll incidents).record? name = some record →
        (new settings disk now).record? name = some record ∨
          ∀ masterKey : Option String, masterKey.isSome ≠ settings.masterKey.isSome →
            Foreign masterKey record := by
  refine ⟨fun record secret hsecret => Ciphertext.ofRecord_ne_ok_of_secret hsecret, ?_, ?_, ?_⟩
  · intro settings disk now before after id name hrun hspares s m hm record hreads hforeign
    obtain ⟨hbefore, hfresh, -, hafter⟩ := admissible_append.1 hrun
    have hsound := hbefore.sound (sound_new settings disk now)
    have hsettings : s.settings = settings := hbefore.settings_eq (sound_new settings disk now)
    have hs : s.Sound := hsound.newCall hfresh name .get
    have hcall : s.calls.find? id = some ⟨name, .get, .start⟩ := by simp [s, Store.call]
    rw [← hsettings] at hforeign ⊢
    exact refuses_foreign hs hcall hafter hspares hm hreads hforeign
  · intro s id name record replies hquiet hfresh hvalid hmiss hrecord hfetched hforeign
    exact hquiet.refuses_foreign hfresh hvalid hmiss hrecord hfetched hforeign
  · intro settings disk now incidents hlawful name record hrecord
    have hsound := sound_new settings disk now
    have hsettings := hlawful.settings_eq hsound
    have hauthored := hlawful.authored hsound (authored_new settings disk now)
    rcases hauthored.records name record hrecord with hfirst | ⟨whole, hwrites, hpart⟩
    · exact .inl hfirst
    · refine .inr fun masterKey hother => ?_
      rw [hsettings] at hwrites
      exact hwrites.foreign hpart hother

end

/-- A store with a master key is opened on the disk of one without, and answers that a key is sealed
without having it decrypted, although its key management system would decrypt anything. -/
theorem formats_never_confused_sealed :
    let w := (Sample.filesWith none).befallAll
      ((Move.call 1 "a" (.create Sample.secret) :: Sample.steps 1 14).map .move)
    let s := new (Sample.settings (.files "keys") (some "k")) w.disk 0
    s.record? "a" = some (plainRecord Sample.secret) ∧
      ∃ count,
        let t := (s.call 1 "a" .get).run (ownSteps 1 (fun _ => Sample.reply 0) count)
        t.outcome? 1 = some (.error .keySealed) ∧ t.decryptions = 0 := by
  intro w s
  obtain ⟨-, -, halone, hwrites⟩ := formats_never_confused
  have hrecord : s.record? "a" = some (plainRecord Sample.secret) := by decide +kernel
  have hforeign : Foreign (some "k") (plainRecord Sample.secret) := by
    have hfirst := hwrites (Sample.settings (.files "keys") none)
      ((Disk.empty [] 0).put ["keys"] (.directory 0o700)) 0
      ((Move.call 1 "a" (.create Sample.secret) :: Sample.steps 1 14).map .move)
      (by decide +kernel) "a" (plainRecord Sample.secret) (by decide +kernel)
    rcases hfirst with hfirst | hforeign
    · exact absurd hfirst (by decide +kernel)
    · exact hforeign (some "k") (by decide)
  have hfetched : s.fetched? "a" (Sample.reply 0).device ≠ none := by decide +kernel
  obtain ⟨count, error, hrefusal, houtcome, hcount⟩ := halone s 1 "a" _ (fun _ => Sample.reply 0)
    (quiet_new _ _ _) rfl (by decide) rfl hrecord (fun _ => hfetched) hforeign
  obtain rfl : error = .keySealed := by
    cases error with
    | keySealed => rfl
    | malformedSecret message => cases hrefusal
    | _ => exact hrefusal.elim
  exact ⟨hrecord, count, houtcome, hcount⟩

end Keyring.Store
