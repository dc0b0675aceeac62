import Keyring.Proofs.KeyFile.Generation
import Keyring.Proofs.Store.Opening

/-!
# Key files that are loaded

The master key of a configuration is read of its key file. That succeeds for the contents of key
files and for no others, and in particular for what the making of a key file leaves. Whoever loads
the same content under the same name decrypts what others encrypt.

- `Path.Expands`: the path that one with a `~` in front stands for;
- `MasterKeys.HoldsOnly`: master keys that are one key, enabled;
- `load_eq_ok_iff`, `load_eq_error_iff`: what is loaded of a key file, and why none is;
- `exists_decrypt_of_same_content`: keys that are loaded of one content open what each other seals;
- `loads_exactly_wellFormed`: all this for the master keys of a configuration.
-/

namespace Keyring

/-! ### The home directory -/

namespace Path

variable {home : Option String} {path file : String}

/-- A path stands for another: a `~` that is all of it or stands before a slash is the home
directory, if there is one. -/
inductive Expands (home : Option String) : String → String → Prop where
  | home {directory : String} (h : home = some directory) : Expands home "~" directory
  | below {directory : String} (h : home = some directory) (rest : String) :
    Expands home ("~/" ++ rest) (directory ++ "/" ++ rest)
  | homeless {path : String} (h : home = none) : Expands home path path
  | same {path : String} (h : path ≠ "~") (hbelow : ∀ rest, path ≠ "~/" ++ rest) :
    Expands home path path

theorem Expands.expandHome_eq (h : Expands home path file) : expandHome home path = file := by
  cases h with
  | @home directory h =>
    subst h
    have htilde : "~".toList = ['~'] := rfl
    simp only [expandHome, htilde, true_or, if_true]
    exact String.append_empty
  | @below directory h rest =>
    subst h
    have htilde : ("~/" ++ rest).toList = '~' :: '/' :: rest.toList := String.toList_append
    simp only [expandHome, htilde, List.head?_cons, or_true, if_true]
    rw [String.append_assoc, ← String.toList_inj]
    simp
  | homeless h =>
    subst h
    unfold expandHome
    split
    case h_1 hhome => cases hhome
    case h_2 => rfl
  | same hne hbelow =>
    unfold expandHome
    split
    case h_2 => rfl
    case h_1 rest _ hpath =>
      rw [if_neg]
      rintro (rfl | hslash)
      · exact hne (String.toList_inj.1 hpath)
      · obtain ⟨below, rfl⟩ := List.head?_eq_some_iff.1 hslash
        refine hbelow (String.ofList below) (String.toList_inj.1 ?_)
        simp [hpath, String.toList_append]

end Path

/-! ### Loading -/

namespace KeyFile

variable {d e : Disk} {home : Option String} {path message : String} {key : Cipher.Key}
  {error : Error}

/-- A key is loaded of a file that can be read and holds it. -/
theorem load_eq_ok_iff : load d home path = .ok key ↔
    ∃ content, d.read (Path.expandHome home path) = .ok content ∧ Holds content key := by
  unfold load
  generalize Path.expandHome home path = file
  dsimp only
  cases d.read file with
  | error fault => simp
  | ok content => simpa using decode_eq_ok_iff

/-- What the error says if no key is loaded of a file: it cannot be read, or its content is
refused. -/
def Unloadable (d : Disk) (file message : String) : Prop :=
  (∃ fault, d.read file = .error fault ∧
    message = "Failed to read key file " ++ file ++ ": " ++ fault.message) ∨
  ∃ content, d.read file = .ok content ∧ Refuses file content message

theorem load_eq_error_iff : load d home path = .error error ↔
    ∃ message, Unloadable d (Path.expandHome home path) message ∧
      error = .invalidConfig message := by
  unfold load Unloadable
  generalize Path.expandHome home path = file
  dsimp only
  cases d.read file with
  | error fault => simp [eq_comm]
  | ok content => simpa using decode_eq_error_iff

end KeyFile

/-! ### Master keys -/

namespace MasterKeys

variable {keys : MasterKeys} {name : String} {key : Cipher.Key}

/-- There is one master key, and it may be used. -/
def HoldsOnly (keys : MasterKeys) (name : String) (key : Cipher.Key) : Prop :=
  ∀ other, keys.keys.find? other = if other = name then some ⟨key, true⟩ else none

theorem holdsOnly_withKey (name : String) (key : Cipher.Key) :
    (empty.withKey name key).HoldsOnly name key := by
  intro other
  simp only [withKey, FiniteMap.find?_insert, beq_iff_eq]
  rfl

/-- With its only key, master keys encrypt every secret, and decrypt what they have encrypted. -/
theorem exists_encrypt_decrypt (name : String) (key : Cipher.Key) (nonce : Cipher.Nonce)
    (secret : Secret) : ∃ sealed, (empty.withKey name key).encrypt nonce name secret = .ok sealed ∧
      (empty.withKey name key).decrypt sealed = .ok secret := by
  have hsame (other : Cipher.Key) (h : (empty.withKey name key).material name = .ok other) :
      other = key := Except.ok.inj (h.symm.trans (material_withKey empty name key))
  refine ⟨sealOf name key nonce secret, ?_, ?_⟩
  · rw [encrypt_eq, material_withKey]
    rfl
  · rw [decrypt_sealOf _ name hsame, material_withKey]
    rfl

end MasterKeys

namespace KeyFile

variable {c c' : Config} {d e : Disk} {home home' : Option String} {name file file' : String}
  {path path' : List UInt8} {keys : MasterKeys} {key : Cipher.Key} {error : Error}

/-- The master keys of a configuration are what its key file holds, under the name that it gives. -/
theorem masterKeys_eq_ok_iff (hkms : c.kms = some ⟨name, path⟩)
    (hfile : Path.Expands home (Config.pathText path) file) : c.masterKeys d home = .ok keys ↔
      ∃ content key, d.read file = .ok content ∧ Holds content key ∧
        keys = MasterKeys.empty.withKey name key := by
  rw [Config.masterKeys_eq_ok_iff hkms]
  simp only [load_eq_ok_iff, hfile.expandHome_eq]
  constructor
  · rintro ⟨key, ⟨content, hread, hholds⟩, hkeys⟩
    exact ⟨content, key, hread, hholds, hkeys⟩
  · rintro ⟨content, key, hread, hholds, hkeys⟩
    exact ⟨key, ⟨content, hread, hholds⟩, hkeys⟩

theorem masterKeys_eq_error_iff (hkms : c.kms = some ⟨name, path⟩)
    (hfile : Path.Expands home (Config.pathText path) file) : c.masterKeys d home = .error error ↔
      ∃ message, Unloadable d file message ∧ error = .invalidConfig message := by
  rw [← hfile.expandHome_eq, ← load_eq_error_iff, Config.masterKeys, hkms]
  dsimp only
  cases load d home (Config.pathText path) <;> simp

/-- A file that holds a key gives master keys with it alone. -/
theorem exists_masterKeys_of_read (hkms : c.kms = some ⟨name, path⟩)
    (hfile : Path.Expands home (Config.pathText path) file)
    (hread : d.read file = .ok (content key)) :
    ∃ keys, c.masterKeys d home = .ok keys ∧ keys.HoldsOnly name key :=
  ⟨_, (masterKeys_eq_ok_iff hkms hfile).2 ⟨_, key, hread, holds_content key, rfl⟩,
    MasterKeys.holdsOnly_withKey name key⟩

/-- Whoever loads the same content under the same name decrypts what others encrypt. -/
theorem exists_decrypt_of_same_content (hkms : c.kms = some ⟨name, path⟩)
    (hfile : Path.Expands home (Config.pathText path) file) (hkms' : c'.kms = some ⟨name, path'⟩)
    (hfile' : Path.Expands home' (Config.pathText path') file')
    (hloads : c.masterKeys d home = .ok keys) (hsame : e.read file' = d.read file) :
    ∃ keys', c'.masterKeys e home' = .ok keys' ∧ ∀ nonce secret, ∃ sealed,
      keys.encrypt nonce name secret = .ok sealed ∧ keys'.decrypt sealed = .ok secret := by
  obtain ⟨content, key, hread, hholds, rfl⟩ := (masterKeys_eq_ok_iff hkms hfile).1 hloads
  refine ⟨MasterKeys.empty.withKey name key, ?_, MasterKeys.exists_encrypt_decrypt name key⟩
  exact (masterKeys_eq_ok_iff hkms' hfile').2 ⟨content, key, hsame.trans hread, hholds, rfl⟩

/-- **Key files are loaded exactly when they are well formed, and those that are made are.** A
configuration that names a key file gives master keys if the file that its path stands for can be
read and is a text of 64 digits between blanks: then they are the one key that the file holds,
enabled. In every other case the error says what is wrong with the file. A making of a key file that
has ended well, whatever the device replied on the way, has left its key to be loaded under every
name. And what is encrypted with the key of a file is decrypted by whoever loads the same content
under the same name. -/
theorem loads_exactly_wellFormed (hkms : c.kms = some ⟨name, path⟩)
    (hfile : Path.Expands home (Config.pathText path) file) :
    (∀ d, (∃ keys, c.masterKeys d home = .ok keys) ↔
      ∃ content, d.read file = .ok content ∧ WellFormed content) ∧
    (∀ d keys, c.masterKeys d home = .ok keys →
      ∃ content key, d.read file = .ok content ∧ Holds content key ∧ keys.HoldsOnly name key) ∧
    (∀ d error, c.masterKeys d home = .error error ↔
      ∃ message, Unloadable d file message ∧ error = .invalidConfig message) ∧
    (∀ d overwrite key replies e g,
      (Generation.start home (Config.pathText path) overwrite key).run d replies = (e, g) →
      g.stage = .finished (.ok ()) →
      ∃ keys, c.masterKeys e home = .ok keys ∧ keys.HoldsOnly name key) ∧
    (∀ d overwrite key e, generate d home (Config.pathText path) overwrite key = (e, .ok ()) →
      ∃ keys, c.masterKeys e home = .ok keys ∧ keys.HoldsOnly name key) ∧
    ∀ (c' : Config) (path' : List UInt8) (home' : Option String) (file' : String),
      c'.kms = some ⟨name, path'⟩ → Path.Expands home' (Config.pathText path') file' →
      ∀ d e keys, c.masterKeys d home = .ok keys → e.read file' = d.read file →
      ∃ keys', c'.masterKeys e home' = .ok keys' ∧ ∀ nonce secret, ∃ sealed,
        keys.encrypt nonce name secret = .ok sealed ∧ keys'.decrypt sealed = .ok secret := by
  refine ⟨fun d => ?_, fun d keys hloads => ?_, fun d error => masterKeys_eq_error_iff hkms hfile,
    fun d overwrite key replies e g hrun hdone => ?_, fun d overwrite key e hmade => ?_, ?_⟩
  · simp only [masterKeys_eq_ok_iff hkms hfile, ← exists_holds_iff]
    constructor
    · rintro ⟨keys, content, key, hread, hholds, -⟩
      exact ⟨content, hread, key, hholds⟩
    · rintro ⟨content, hread, key, hholds⟩
      exact ⟨_, content, key, hread, hholds, rfl⟩
  · obtain ⟨content, key, hread, hholds, rfl⟩ := (masterKeys_eq_ok_iff hkms hfile).1 hloads
    exact ⟨content, key, hread, hholds, MasterKeys.holdsOnly_withKey name key⟩
  · have hread := read_of_run hrun hdone
    rw [hfile.expandHome_eq] at hread
    exact exists_masterKeys_of_read hkms hfile hread
  · have hread := read_of_generate hmade
    rw [hfile.expandHome_eq] at hread
    exact exists_masterKeys_of_read hkms hfile hread
  · intro c' path' home' file' hkms' hfile' d e keys hloads hsame
    exact exists_decrypt_of_same_content hkms hfile hkms' hfile' hloads hsame

/-- A key file that is written in three parts below the home directory is loaded from there. -/
theorem loads_exactly_wellFormed_below_home :
    let d := (Disk.empty [] 0).put ["h"] (.directory 0o755)
    let key : Cipher.Key := ⟨List.replicate 32 0x5a, rfl⟩
    let c := { Config.standard with kms := some ⟨"k", Text.Utf8.ofString "~/master.key"⟩ }
    let made := (Generation.start (some "/h") "~/master.key" false key).run d
      [.accept 0, .accept 0, .accept 0, .accept 9, .accept 19, .accept 99, .accept 0]
    made.2.stage = .finished (.ok ()) ∧
      ∃ keys, c.masterKeys made.1 (some "/h") = .ok keys ∧ keys.HoldsOnly "k" key ∧
        ∀ nonce secret, ∃ sealed, keys.encrypt nonce "k" secret = .ok sealed ∧
          keys.decrypt sealed = .ok secret := by
  intro d key c made
  have hpath : Config.pathText (Text.Utf8.ofString "~/master.key") = "~/master.key" := by
    decide +kernel
  have hfile : Path.Expands (some "/h") (Config.pathText (Text.Utf8.ofString "~/master.key"))
      ("/h" ++ "/" ++ "master.key") := by
    rw [hpath]
    exact .below rfl "master.key"
  have hdone : made.2.stage = .finished (.ok ()) := by
    have hremaining : made.2.remaining = 0 := by decide +kernel
    have hresult : made.2.result = .ok () := by decide +kernel
    rw [Generation.stage_of_remaining hremaining, hresult]
  have hkms : c.kms = some ⟨"k", Text.Utf8.ofString "~/master.key"⟩ := rfl
  obtain ⟨-, -, -, hmade, -, hsame⟩ := loads_exactly_wellFormed hkms hfile
  rw [hpath] at hmade
  obtain ⟨keys, hloads, honly⟩ := hmade d false key _ made.1 made.2 Prod.mk.eta.symm hdone
  obtain ⟨keys', hloads', hdecrypts⟩ := hsame c _ _ _ hkms hfile made.1 made.1 keys hloads rfl
  obtain rfl := Except.ok.inj (hloads.symm.trans hloads')
  exact ⟨hdone, keys, hloads, honly, hdecrypts⟩

end KeyFile

end Keyring
