import Keyring.Proofs.Store.Completion
import Keyring.Proofs.Store.Getting

/-!
# Created keys can be read back

With a master key the record of a key is that of the ciphertext which the key management system has
made of its secret. A store writes any such record, but it reads only those that name a master key
and are not too large. So a key that a call has created can be read back from then on, from the
cache or not and also when the store is set up anew, if and only if its ciphertext is readable.

- `ReadsBack`: what it gives to get a key from now on;
- `reads_back`: every key that a call has created can be read back if its ciphertext is readable.
-/

namespace Keyring.Store

/-- The record of a key is that of a ciphertext. If it is readable, who gets the key finds its
secret until the record is removed; otherwise who reads the record finds a sealed key. -/
structure ReadsBack (opens : Ciphertext → Option Secret) (kind : Ciphertext → Prop) (s : Store)
    (name : String) (secret : Secret) (c : Ciphertext) : Prop where
  record : s.record? name = some c.toRecord
  gives : c.Readable → ∀ later, (∀ i ∈ later, i ≠ .restart) →
    Lawful (fun s i => Harmless opens kind name s i ∧ KeepsRecord name s i ∧
      Answers opens name s i) s later →
    Given (· = .ok (.secret secret)) s (s.befallAll later) name
  seals : ¬c.Readable → ∀ id reply again again', s.WorksOn name id .read →
    (∀ stage ∈ (s.step id reply).stage? id, stage.isFailure = false) →
    (s.run [.step id reply, .step id again, .step id again']).outcome? id =
      some (.error .keySealed)

section

variable {opens : Ciphertext → Option Secret} {kind : Ciphertext → Prop} {s : Store}
  {name key : String} {secret : Secret} {c : Ciphertext} {settings : Settings} {disk : Disk}
  {now : Nat} {before : List Incident} {i : Incident}

/-- A key that lasts can be read back if its ciphertext is readable. -/
theorem Lasts.readsBack (h : s.Lasts name secret c.toRecord) (hsound : s.Sound)
    (hreliable : s.Reliable opens kind name) (hkey : s.settings.masterKey = some key)
    (hkind : kind c) (hopens : opens c = some secret) : s.ReadsBack opens kind name secret c where
  record := h.record
  gives hreadable later hstays hlawful := by
    have hseals : SealsAs s.settings opens kind secret c.toRecord := by
      rw [SealsAs, hkey]
      exact ⟨c, hkind, hopens, rfl⟩
    have hgiven := hlawful.gives hstays hsound hreliable hseals h
    intro id call hcall hname hget hopen outcome hverdict
    rcases hgiven id call hcall hname hget hopen outcome hverdict with hok | ⟨hnone, -⟩
    · exact hok
    · -- a record that can be read is not found sealed
      have hmaster : s.settings.masterKey ≠ none := by simp [hkey]
      cases (hnone.symm.trans (secretOf_toRecord hmaster hreadable)).trans hopens
  seals hunreadable id reply again again' hreader hfaultless :=
    hreader.finds_sealed hsound (by simp [hkey]) hunreadable h.reaches h.record hfaultless again
      again'

/-- **What a call has created can be read back.** A store has a master key, and its key management
system encrypts under it to ciphertexts that name it and decrypts these to their secrets. No file
that could not be stored is removed again while another call has read it. Then when a call returns
that has created a key, the record of the key is that of a ciphertext of its secret, and it stays so
until it is removed, whatever the calls, the cache and the device do and also when a store of files
is set up anew. All the time the key can be read back if that ciphertext is readable: if the name of
the master key is not empty and the record is not too large. As long as nobody is to delete the key,
each call for it ends. -/
theorem reads_back (hkey : settings.masterKey = some key)
    (hlawful : Lawful (Harmless opens (·.key = key) name) (new settings disk now) (before ++ [i]))
    (hcompletes : Completes name secret ((new settings disk now).befallAll before) i) :
    ∃ c : Ciphertext, c.key = key ∧ opens c = some secret ∧ ∀ after,
      Lawful (fun s i => Harmless opens (·.key = key) name s i ∧ KeepsRecord name s i)
        (((new settings disk now).befallAll before).befall i) after →
      (settings.backend = .memory → ∀ j ∈ after, j ≠ .restart) →
      let t := (((new settings disk now).befallAll before).befall i).befallAll after
      t.ReadsBack opens (·.key = key) name secret c ∧
        (t.Shared name → ∀ id call, t.calls.find? id = some call → call.name = name → ∀ replies,
          ∃ count outcome, (t.run (ownSteps id replies count)).outcome? id = some outcome) := by
  obtain ⟨hbefore, hfresh, hharmless, -⟩ := lawful_append.1 hlawful
  obtain ⟨hsound, hreliable⟩ := hbefore.reliable (sound_new settings disk now) reliable_new
  have hreturn : Lawful (Harmless opens (·.key = key) name)
      ((new settings disk now).befallAll before) [i] := ⟨hfresh, hharmless, trivial⟩
  obtain ⟨hsound', hreliable'⟩ := hreturn.reliable hsound hreliable
  -- the record that the call has stored is that of a ciphertext of its secret
  have hsettings : ((new settings disk now).befallAll before).settings = settings :=
    hbefore.settings_eq (sound_new settings disk now)
  obtain ⟨record, hseals, hlasts⟩ := hreliable.lasts_of_completes hsound hfresh hcompletes
  rw [hsettings] at hseals
  have hsealed := hseals
  rw [SealsAs, hkey] at hsealed
  obtain ⟨c, hkind, hopens, rfl⟩ := hsealed
  refine ⟨c, hkind, hopens, fun after hafter hlost => ?_⟩
  intro t
  have hsame := (hreturn.settings_eq hsound).trans hsettings
  have hstays : Lawful (Harmless opens (·.key = key) name)
      (((new settings disk now).befallAll before).befall i) after := hafter.imp fun _ _ h => h.1
  obtain ⟨hsound'', hreliable''⟩ := hstays.reliable hsound' hreliable'
  obtain ⟨hsettings', hlasts'⟩ := hafter.lasts hsame hlost hsound' hreliable' hseals hlasts
  refine ⟨hlasts'.readsBack hsound'' hreliable'' (hsettings' ▸ hkey) hkind hopens, ?_⟩
  intro hshared id call hcall hname replies
  have hall : Lawful (fun _ _ => True) (new settings disk now) (before ++ i :: after) :=
    lawful_append.2 ⟨hbefore.imp fun _ _ _ => trivial, hfresh, trivial,
      hstays.imp fun _ _ _ => trivial⟩
  have hend : (new settings disk now).befallAll (before ++ i :: after) = t :=
    befallAll_append _ before (i :: after)
  rw [← hend] at hshared hcall ⊢
  exact hall.ends_of_shared hshared hcall hname replies

end

namespace Sample

/-- The cache loses the name, and the store is set up anew. -/
def forgetAll : List Incident := [.move (.evict "a"), .restart]

/-- The key is read. -/
def readAnew : List Incident := (.call 1 "a" .get :: steps 1 9).map .move

/-- The ciphertext of the secret under a master key without a name. -/
def namelessCiphertext : Ciphertext := ⟨"", [0x07]⟩

/-- Only this ciphertext opens. -/
def opensNameless (c : Ciphertext) : Option Secret :=
  if c = namelessCiphertext then some secret else none

/-- A call creates the key under a master key without a name. -/
def createNameless : List Move :=
  .call 1 "a" (.create secret) ::
    List.replicate 14 (.step 1 { reply 100 with encrypted := .ok namelessCiphertext })

end Sample

/-- A key is read back when it is no longer cached and the store has been set up anew. -/
theorem reads_back_anew :
    let s := (Sample.filesWith (some "k")).befallAll Sample.untilReturn
    let t := (s.befall (.move (.step 2 (Sample.reply 100)))).befallAll Sample.forgetAll
    (t.befallAll Sample.readAnew).outcome? 1 = some (.ok (.secret Sample.secret)) := by
  intro s t
  have hlawful : Lawful (Harmless Sample.opens (·.key = "k") "a") (Sample.filesWith (some "k"))
      (Sample.untilReturn ++ [.move (.step 2 (Sample.reply 100))]) := by decide +kernel
  have hcompletes : Completes "a" Sample.secret s (.move (.step 2 (Sample.reply 100))) :=
    ⟨2, by decide +kernel, by decide +kernel⟩
  obtain ⟨c, -, hopens, hreads⟩ := reads_back rfl hlawful hcompletes
  have hafter : Lawful (fun s i => Harmless Sample.opens (·.key = "k") "a" s i ∧
      KeepsRecord "a" s i) (s.befall (.move (.step 2 (Sample.reply 100)))) Sample.forgetAll := by
    decide +kernel
  obtain ⟨hback, -⟩ := hreads _ hafter (by simp [Sample.settings])
  have hreadable : c.Readable := by
    have hc : c = Sample.ciphertext := by
      by_contra hother
      rw [Sample.opens, if_neg hother] at hopens
      cases hopens
    rw [hc]
    decide +kernel
  have hlater : Lawful (fun s i => Harmless Sample.opens (·.key = "k") "a" s i ∧
      KeepsRecord "a" s i ∧ Answers Sample.opens "a" s i) t Sample.readAnew := by decide +kernel
  have hgiven := hback.gives hreadable _ (by simp [Sample.readAnew]) hlater
  have hopen : t.Open 1 := by unfold Open; decide +kernel
  obtain ⟨outcome, houtcome, rfl⟩ := hgiven.exists_outcome hopen (by decide +kernel)
  exact houtcome

/-- Under a master key without a name a call creates a key, for either kind of store, and when it is
no longer cached it is found sealed. -/
theorem sealed_under_nameless_key :
    let s := new (Sample.settings (.files "keys") (some "")) Sample.disk 0
    let t := new (Sample.settings .memory (some "")) Sample.disk 0
    let read := .evict "a" :: .call 2 "a" .get :: Sample.steps 2 8
    Lawful (fun s i => Harmless Sample.opensNameless (·.key = "") "a" s i ∧ KeepsRecord "a" s i ∧
      Answers Sample.opensNameless "a" s i) s ((Sample.createNameless ++ read).map .move) ∧
    Lawful (fun s i => Harmless Sample.opensNameless (·.key = "") "a" s i ∧ KeepsRecord "a" s i ∧
      Answers Sample.opensNameless "a" s i) t ((Sample.createNameless ++ read).map .move) ∧
      (s.run Sample.createNameless).outcome? 1 = some (.ok .done) ∧
      (t.run Sample.createNameless).outcome? 1 = some (.ok .done) ∧
      ((s.run Sample.createNameless).run read).outcome? 2 = some (.error .keySealed) ∧
      ((t.run Sample.createNameless).run read).outcome? 2 = some (.error .keySealed) := by
  decide +kernel

end Keyring.Store
