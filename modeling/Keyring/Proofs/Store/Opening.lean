import Keyring.Proofs.Ciphertext.Distinct
import Keyring.Proofs.KeyFile.Format
import Keyring.Proofs.Kms.Discreet
import Keyring.Proofs.Store.AtOnce
import Keyring.Proofs.Store.ReadLimit
import Keyring.Proofs.Store.Sequence
import Keyring.Store.Open

/-!
# Stores that a configuration opens

A configuration decides where keys are kept and which key file their records are encrypted under. No
record is a key file, so that calls for keys leave the key file as it is wherever it lies, and
stores that are opened one after the other have the same master key. With it they seal and unseal
the same records.

- `KeyFile.ofRecord_ne_ok`: no record is a key file;
- `Config.masterKeys_keepsFiles`: the key file is loaded again after a call;
- `Config.RoomFor`, `Config.reply_faithful`: with their master key, encrypting and decrypting do not
  fail;
- `Config.Stands`: the disk stands for a map from names to secrets under a configuration;
- `Config.Stands.runAlone`: a call by a store that is opened on the disk ends as it does on the map.
- `Config.Stands.runAlone_memory`: in memory it ends as it does on a map that holds nothing.
-/

namespace Keyring

/-! ### Key files and records -/

namespace KeyFile

/-- No record of a ciphertext is a key file, however much is read of it. -/
theorem ofRecord_ne_ok {path : String} {content : List UInt8} {key : Cipher.Key}
    (h : decode path content = .ok key) (backend : Store.Backend) (c : Ciphertext) :
    Ciphertext.ofRecord (backend.readable content) ≠ .ok c := by
  obtain ⟨text, core, rfl, htrims, -, hdigits, -⟩ := decode_eq_ok_iff.1 h
  rw [Store.ofRecord_readable]
  exact Ciphertext.ofRecord_ne_ok_of_digits htrims hdigits c

end KeyFile

/-! ### Master keys -/

namespace MasterKeys

/-- What a ciphertext opens to with master keys. -/
def opens (m : MasterKeys) (c : Ciphertext) : Option Secret := (m.decrypt c).toOption

theorem material_withKey (m : MasterKeys) (name : String) (material : Cipher.Key) :
    (m.withKey name material).material name = .ok material := by
  simp [MasterKeys.material, withKey]

/-- What is encrypted opens to its secret. -/
theorem opens_of_encrypt {m : MasterKeys} {name : String} {nonce : Cipher.Nonce} {secret : Secret}
    {c : Ciphertext} (h : m.encrypt nonce name secret = .ok c) :
    c.key = name ∧ m.opens c = some secret := by
  rw [encrypt_eq] at h
  cases hmaterial : m.material name with
  | error fault =>
    rw [hmaterial] at h
    cases h
  | ok material =>
    rw [hmaterial] at h
    obtain rfl := Except.ok.inj h
    have hsame (key : Cipher.Key) (hkey : m.material name = .ok key) : key = material :=
      Except.ok.inj (hkey.symm.trans hmaterial)
    refine ⟨rfl, ?_⟩
    rw [opens, decrypt_sealOf m name hsame, hmaterial]
    rfl

end MasterKeys

namespace Config

/-- The record of a secret is not too large if it is encrypted under the master key. -/
def RoomFor (c : Config) (keys : MasterKeys) (nonce : Cipher.Nonce) (secret : Secret) : Prop :=
  ∀ k ∈ c.kms, ∀ sealed, keys.encrypt nonce k.key secret = .ok sealed →
    sealed.toRecord.length ≤ Ciphertext.maxRecordSize

/-- A disk stands for a map under a configuration: the master keys can be loaded, and the directory
can be used and has, under the valid names, one record for each secret of the map. -/
structure Stands (c : Config) (home : Option String) (keys : MasterKeys) (d : Disk)
    (m : Store.SecretMap) : Prop where
  loads : c.masterKeys d home = .ok keys
  hosts : c.backend = .files → d.Hosts (c.expandedDirectory home)
  stores : c.backend = .files → (Store.new (c.settings home) d 0).Stores keys.opens m

variable {c : Config} {home : Option String} {keys : MasterKeys} {d : Disk} {m : Store.SecretMap}
  {s t : Store} {nonce : Cipher.Nonce} {name : String} {operation : Operation} {stage : Store.Stage}
  {k : Config.Kms}

theorem settings_masterKey_eq_some_iff {key : String} :
    (c.settings home).masterKey = some key ↔ ∃ k ∈ c.kms, k.key = key :=
  Option.map_eq_some_iff

/-- The key file that a configuration names is the only source of its master key. -/
theorem masterKeys_eq_ok_iff (hkms : c.kms = some k) :
    c.masterKeys d home = .ok keys ↔
      ∃ material, KeyFile.load d home (pathText k.keyFile) = .ok material ∧
        keys = MasterKeys.empty.withKey k.key material := by
  unfold masterKeys
  rw [hkms]
  dsimp only
  cases KeyFile.load d home (pathText k.keyFile) with
  | error error => simp
  | ok material => simp [eq_comm]

/-- The master key of a configuration that is valid has a name. -/
theorem key_ne_empty (hvalid : c.validate = .ok ()) (hkms : c.kms = some k) : k.key ≠ "" := by
  intro hkey
  unfold validate at hvalid
  rw [hkms] at hvalid
  split at hvalid
  · cases hvalid
  · simp [Kms.validate, hkey] at hvalid

/-- With the master key that was loaded, every secret is encrypted. -/
theorem exists_encrypt (hloads : c.masterKeys d home = .ok keys) (hkms : c.kms = some k)
    (nonce : Cipher.Nonce) (secret : Secret) :
    ∃ sealed, keys.encrypt nonce k.key secret = .ok sealed := by
  obtain ⟨material, -, rfl⟩ := (masterKeys_eq_ok_iff hkms).1 hloads
  rw [MasterKeys.encrypt_eq, MasterKeys.material_withKey]
  exact ⟨_, rfl⟩

/-- Under a master key whose name takes no more than a mebibyte, every record has room. -/
theorem roomFor_of_size_le (h : ∀ k ∈ c.kms, k.key.utf8ByteSize ≤ 2 ^ 20) (keys : MasterKeys)
    (nonce : Cipher.Nonce) (secret : Secret) : c.RoomFor keys nonce secret := by
  intro k hkms sealed hsealed
  rw [MasterKeys.encrypt_eq] at hsealed
  cases hmaterial : keys.material k.key with
  | error fault =>
    rw [hmaterial] at hsealed
    cases hsealed
  | ok material =>
    rw [hmaterial] at hsealed
    obtain rfl : MasterKeys.sealOf k.key material nonce secret = sealed := Except.ok.inj hsealed
    have hname := h k hkms
    have hsecret : secret.bytes.length ≤ 4096 := secret.length_le
    have hbytes : (MasterKeys.sealOf k.key material nonce secret).bytes.length =
        12 + (secret.bytes.length + 16) := by
      simp [MasterKeys.sealOf, nonce.length_eq, Cipher.Aead.tagSize]
    have hrecord := (MasterKeys.sealOf k.key material nonce secret).length_toRecord_le
    rw [hbytes,
      show (MasterKeys.sealOf k.key material nonce secret).key = k.key from rfl] at hrecord
    have hlimit : Ciphertext.maxRecordSize = 10 * 2 ^ 20 := rfl
    omega

/-- Encrypting and decrypting do not fail if the records have room. -/
theorem reply_faithful (hloads : c.masterKeys d home = .ok keys) (hvalid : c.validate = .ok ())
    (hroom : ∀ secret, operation = .create secret → KeyName.Valid name →
      c.RoomFor keys nonce secret)
    (hfits : stage.Fits (c.settings home) name operation) :
    (stage.reply keys (c.settings home).masterKey nonce).Faithful (c.settings home) keys.opens
      stage where
  accepts := by
    unfold Store.Stage.reply
    split <;> exact ⟨_, rfl⟩
  encrypts hmaster secret hstage := by
    obtain ⟨key, hkey⟩ := Option.ne_none_iff_exists'.1 hmaster
    obtain ⟨k, hkms, rfl⟩ := settings_masterKey_eq_some_iff.1 hkey
    obtain ⟨sealed, hsealed⟩ := exists_encrypt hloads hkms nonce secret
    obtain ⟨hname, hopens⟩ := MasterKeys.opens_of_encrypt hsealed
    subst hstage
    refine ⟨sealed, ?_, hopens, ?_, hroom secret hfits.2 hfits.1 k hkms sealed hsealed⟩
    · simpa [Store.Stage.reply, hkey] using hsealed
    · rw [hname]
      exact key_ne_empty hvalid hkms
  decrypts _ sealed hstage := by
    subst hstage
    rfl

/-- With a master key, what stands for a secret is no key file. -/
theorem decode_ne_ok_of_stores {now : Nat} {path : String} {content : List UInt8}
    {material : Cipher.Key} (hkms : c.kms = some k)
    (hstores : (Store.new (c.settings home) d now).Stores keys.opens m)
    (hvalid : KeyName.Valid name)
    (hrecord : (Store.new (c.settings home) d now).record? name = some content) :
    KeyFile.decode path content ≠ .ok material := by
  intro hdecode
  have hmaster : (c.settings home).masterKey = some k.key := by simp [settings, hkms]
  have hstored := hstores name hvalid
  rw [hrecord] at hstored
  obtain ⟨secret, -, hsecret⟩ := Option.map_eq_some_iff.1 hstored.symm
  rw [Store.new, Store.secretOf] at hsecret
  simp only [hmaster] at hsecret
  obtain ⟨sealed, hsealed, -⟩ := Option.bind_eq_some_iff.1 hsecret.symm
  cases hread : Ciphertext.ofRecord ((c.settings home).backend.readable content) with
  | error error =>
    rw [hread] at hsealed
    cases hsealed
  | ok sealed' => exact KeyFile.ofRecord_ne_ok hdecode _ _ hread

theorem backend_eq_files {directory : String}
    (h : (c.settings home).backend = .files directory) :
    c.backend = .files ∧ directory = c.expandedDirectory home := by
  unfold settings at h
  split at h <;> simp_all

/-- A call for a key leaves the key file as it is, as no record is a key file. -/
theorem masterKeys_keepsFiles {now : Nat} (hloads : c.masterKeys d home = .ok keys)
    (hstores : c.backend = .files → (Store.new (c.settings home) d now).Stores keys.opens m)
    (hkeeps : (Store.new (c.settings home) d now).KeepsFiles t name) :
    c.masterKeys t.disk home = .ok keys := by
  cases hkms : c.kms with
  | none => simpa [masterKeys, hkms] using hloads
  | some k =>
    rw [masterKeys_eq_ok_iff hkms] at hloads ⊢
    obtain ⟨material, hload, hkeys⟩ := hloads
    refine ⟨material, ?_, hkeys⟩
    unfold KeyFile.load at hload ⊢
    generalize Path.expandHome home (pathText k.keyFile) = path at hload ⊢
    dsimp only at hload ⊢
    cases hread : d.read path with
    | error fault =>
      rw [hread] at hload
      cases hload
    | ok content =>
      rw [hread] at hload
      rw [Disk.read_of_same hread hkeeps.grows fun target hlocate => hkeeps.contents _ ?_]
      · exact hload
      -- the key file does not lie where the file of the key belongs
      intro directory hfiles hvalid hplace
      obtain ⟨target', hlocate', hcontent⟩ := Disk.exists_target_of_read hread
      obtain rfl := Except.ok.inj (hlocate.symm.trans hlocate')
      have hrecord : (Store.new (c.settings home) d now).record? name = some content := by
        rw [Store.record?, hfiles, ← hcontent, hplace]
        rfl
      exact decode_ne_ok_of_stores hkms (hstores (backend_eq_files hfiles).1) hvalid hrecord hload

/-! ### A call on an opened store -/

/-- A store of files that is opened on a disk has the records of any other one that works on it. -/
theorem record?_open (hfiles : c.backend = .files) (hsettings : s.settings = c.settings home)
    (name : String) :
    (Store.new (c.settings home) s.disk 0).record? name = s.record? name := by
  have hbackend : (c.settings home).backend = .files (c.expandedDirectory home) := by
    simp [settings, hfiles]
  simp only [Store.record?, Store.new, hsettings, hbackend]

/-- An opened store of files stands for the map. -/
theorem Stands.rests (h : c.Stands home keys d m) (hfiles : c.backend = .files) :
    (Store.new (c.settings home) d 0).Rests keys.opens m 0 := by
  refine Store.rests_new (fun directory hdirectory => ?_) (h.stores hfiles)
  rw [(backend_eq_files hdirectory).2]
  exact h.hosts hfiles

/-- **A call on an opened store.** On a disk that stands for a map, a call that is run alone ends as
it does on the map, and the disk then stands for what comes of the map. If the call fails, the
records are as before. -/
theorem Stands.runAlone (h : c.Stands home keys d m) (hfiles : c.backend = .files)
    (hvalid : c.validate = .ok ()) (name : String) (operation : Operation)
    (hroom : ∀ secret, operation = .create secret → KeyName.Valid name →
      c.RoomFor keys nonce secret) :
    ∃ t, (Store.new (c.settings home) d 0).runAlone keys nonce 0 name operation =
        (some (m.perform name operation).1, t) ∧
      c.Stands home keys t.disk (m.perform name operation).2 ∧
      ∀ error, (m.perform name operation).1 = .error error → ∀ other,
        (Store.new (c.settings home) t.disk 0).record? other =
          (Store.new (c.settings home) d 0).record? other := by
  have hrests := h.rests hfiles
  obtain ⟨outcome, t, hrun, hidle, hapart, hkeeps, hfinishes⟩ :=
    hrests.idle.runAlone (hrests.free 0 le_rfl) name operation fun stage hfits =>
      reply_faithful h.loads hvalid hroom hfits
  obtain ⟨rfl, hrests', -⟩ := hrests.of_finishes hidle hapart hfinishes
  have hrecord := record?_open hfiles hapart.settings
  refine ⟨t, hrun, ⟨masterKeys_keepsFiles h.loads h.stores hkeeps, fun _ => ?_, fun _ => ?_⟩,
    fun error herror other => ?_⟩
  · refine hidle.hosted _ ?_
    rw [hapart.settings]
    simp [Store.new, settings, hfiles]
  · intro other hother
    rw [hrecord, ← (hrests'.holds other hother).stored, hapart.settings]
    rfl
  · rw [hrecord]
    rw [herror] at hfinishes
    by_cases hname : other = name
    · subst hname
      exact congrArg Store.Slot.record hfinishes.eq_of_error
    · exact congrArg Store.Slot.record (hapart.slot other hname)

/-- **A call on a store in memory.** It ends as it does on a map that holds nothing, however large a
record is. -/
theorem Stands.runAlone_memory (h : c.Stands home keys d m) (hmemory : c.backend = .memory)
    (hvalid : c.validate = .ok ()) (nonce : Cipher.Nonce) (name : String)
    (operation : Operation) :
    ∃ t, (Store.new (c.settings home) d 0).runAlone keys nonce 0 name operation =
        (some (Store.SecretMap.perform (fun _ => none) name operation).1, t) ∧
      c.Stands home keys t.disk m := by
  have hbackend : (c.settings home).backend = .memory := by simp [settings, hmemory]
  have hstands (t : Store) (hkeeps : (Store.new (c.settings home) d 0).KeepsFiles t name) :
      c.Stands home keys t.disk m := by
    refine ⟨masterKeys_keepsFiles h.loads h.stores hkeeps, fun hfiles => ?_, fun hfiles => ?_⟩
    all_goals cases hmemory.symm.trans hfiles
  by_cases hcreates : (∃ secret, operation = .create secret) ∧ KeyName.Valid name
  · -- a key that is created need not have a record that can be read
    obtain ⟨⟨secret, rfl⟩, hname⟩ := hcreates
    have hkey (key : String) (x : Secret) (hkey : (c.settings home).masterKey = some key) :
        ∃ sealed, keys.encrypt nonce key x = .ok sealed := by
      obtain ⟨k, hkms, rfl⟩ := settings_masterKey_eq_some_iff.1 hkey
      exact exists_encrypt h.loads hkms nonce x
    obtain ⟨t, hrun, hkeeps⟩ := Store.runAlone_create_memory hbackend hname hkey secret
    refine ⟨t, ?_, hstands t hkeeps⟩
    rw [hrun, Store.SecretMap.perform_create_of_none hname rfl]
  · have hrests : (Store.new (c.settings home) d 0).Rests keys.opens (fun _ => none) 0 := by
      refine Store.rests_new (fun directory hfiles => ?_) fun other _ => ?_
      · cases hbackend.symm.trans hfiles
      · simp [Store.record?, Store.new, hbackend]
    obtain ⟨outcome, t, hrun, hidle, hapart, hkeeps, hfinishes⟩ :=
      hrests.idle.runAlone (hrests.free 0 le_rfl) name operation fun stage hfits =>
        reply_faithful h.loads hvalid
          (fun secret hop hname => (hcreates ⟨⟨secret, hop⟩, hname⟩).elim)
          hfits
    obtain ⟨rfl, -, -⟩ := hrests.of_finishes hidle hapart hfinishes
    exact ⟨t, hrun, hstands t hkeeps⟩

end Config

end Keyring
