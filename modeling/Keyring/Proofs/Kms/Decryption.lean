import Keyring.Proofs.Cipher.Aead
import Keyring.Proofs.Kms.Discreet
import Keyring.Proofs.Secret.Record

/-!
# What master keys decrypt

Master keys are added, disabled and enabled in any order. What has been done to the key that a
ciphertext names decides whether it serves, and with what material; then the bytes of the ciphertext
decide whether they are the encrypted form of a secret.

- `MasterKeys.Step`, `MasterKeys.after`: what is done to master keys, and the keys then;
- `Serves`, `find?_after`: whether a key serves, told by the steps for its name alone;
- `Refuses`, `refuses_or_encrypts`: why a ciphertext is refused, the first reason first, and that
  there is always a reason if it is not the encrypted form of a secret;
- `decrypt_eq_ok_iff`, `decrypt_eq_error_iff`: the ciphertexts that are decrypted and those that are
  refused;
- `decrypt_inverts_encrypt`: all this together, and what follows for ciphertexts that are changed
  and for keys that others are added to.
-/

namespace Keyring.MasterKeys

/-- What may be done to master keys. -/
inductive Step where
  /-- A key is added, in place of one of the same name. -/
  | add (name : String) (material : Cipher.Key)
  /-- A key is disabled. -/
  | disable (name : String)
  /-- A key is enabled. -/
  | enable (name : String)
  deriving DecidableEq

/-- The name of the key that a step is for. -/
def Step.name : Step → String
  | .add name _ | .disable name | .enable name => name

/-- The material that a step gives its key. -/
def Step.material? : Step → Option Cipher.Key
  | .add _ material => some material
  | .disable _ | .enable _ => none

/-- The master keys after a step. -/
def make (m : MasterKeys) : Step → MasterKeys
  | .add name material => m.withKey name material
  | .disable name => m.setEnabled name false
  | .enable name => m.setEnabled name true

/-- The master keys after some steps, of which there were none at first. -/
def after (steps : List Step) : MasterKeys := steps.foldl make empty

/-- The steps for a name. -/
def stepsFor (steps : List Step) (name : String) : List Step := steps.filter (·.name = name)

/-- The material that the key of a name was given last. -/
def lastMaterial? (steps : List Step) (name : String) : Option Cipher.Key :=
  ((stepsFor steps name).filterMap Step.material?).getLast?

/-- What was done last to the key of a name. -/
def lastStep? (steps : List Step) (name : String) : Option Step := (stepsFor steps name).getLast?

/-- The key of a name has been added, and was not disabled last. -/
structure Serves (steps : List Step) (name : String) (material : Cipher.Key) : Prop where
  material : lastMaterial? steps name = some material
  enabled : lastStep? steps name ≠ some (.disable name)

/-- Why a ciphertext is refused. Each reason but the first takes it that those before do not
apply. -/
inductive Refuses (steps : List Step) (c : Ciphertext) : KmsFault → Prop where
  | unknown (h : lastMaterial? steps c.key = none) : Refuses steps c (.keyNotFound c.key)
  | disabled (hknown : lastMaterial? steps c.key ≠ none)
      (h : lastStep? steps c.key = some (.disable c.key)) : Refuses steps c (.keyDisabled c.key)
  | short {material : Cipher.Key} (hserves : Serves steps c.key material)
      (h : c.bytes.length < 28) : Refuses steps c .notAuthentic
  | forged {material : Cipher.Key} (hserves : Serves steps c.key material) {nonce : Cipher.Nonce}
      {encrypted tag : List UInt8} (hbytes : c.bytes = nonce.bytes ++ (encrypted ++ tag))
      (hlength : tag.length = 16)
      (h : Cipher.ofLittleEndian tag ≠
        Cipher.Aead.tagNumber material nonce (Text.Utf8.ofString c.key) encrypted) :
    Refuses steps c .notAuthentic
  -- what is authentic may still be no secret
  | empty {material : Cipher.Key} (hserves : Serves steps c.key material) {nonce : Cipher.Nonce}
      {sealedBytes : List UInt8} (hbytes : c.bytes = nonce.bytes ++ sealedBytes)
      (h : Cipher.Aead.Encrypts material nonce (Text.Utf8.ofString c.key) [] sealedBytes) :
    Refuses steps c
      (.other ("decrypted secret is invalid: " ++ Secret.Fault.empty.toError.message))
  | tooLong {material : Cipher.Key} (hserves : Serves steps c.key material) {nonce : Cipher.Nonce}
      {message sealedBytes : List UInt8} (hbytes : c.bytes = nonce.bytes ++ sealedBytes)
      (hlong : 4096 < message.length)
      (h : Cipher.Aead.Encrypts material nonce (Text.Utf8.ofString c.key) message sealedBytes) :
    Refuses steps c
      (.other ("decrypted secret is invalid: " ++
        (Secret.Fault.tooLong message.length).toError.message))

variable {m : MasterKeys} {steps : List Step} {step : Step} {name : String}
  {material : Cipher.Key} {nonce : Cipher.Nonce} {c : Ciphertext} {secret : Secret}
  {fault : KmsFault} {sealedBytes : List UInt8}

/-! ### Keys by what was done to them -/

theorem after_concat (steps : List Step) (step : Step) :
    after (steps ++ [step]) = (after steps).make step := by
  rw [after, List.foldl_append]
  rfl

theorem stepsFor_concat_self (h : step.name = name) :
    stepsFor (steps ++ [step]) name = stepsFor steps name ++ [step] := by
  simp [stepsFor, List.filter_append, h]

theorem stepsFor_concat_of_ne (h : step.name ≠ name) :
    stepsFor (steps ++ [step]) name = stepsFor steps name := by
  simp [stepsFor, List.filter_append, h]

/-- A step for a key leaves the others as they are. -/
theorem find?_make_of_ne (h : step.name ≠ name) :
    (m.make step).keys.find? name = m.keys.find? name := by
  have hne : name ≠ step.name := Ne.symm h
  cases step with
  | add n material => simp_all [make, withKey, Step.name]
  | disable n | enable n =>
    simp only [make, setEnabled]
    split
    · simp_all [Step.name]
    · rfl

/-- The key of a name is what the steps for that name have made of it. -/
theorem find?_after (steps : List Step) (name : String) :
    (after steps).keys.find? name = (lastMaterial? steps name).map fun material =>
      ⟨material, decide (lastStep? steps name ≠ some (.disable name))⟩ := by
  induction steps using List.reverseRecOn with
  | nil => rfl
  | append_singleton steps step ih =>
    rw [after_concat]
    by_cases hname : step.name = name
    case neg =>
      rw [find?_make_of_ne hname, ih, lastMaterial?, lastStep?, lastMaterial?, lastStep?,
        stepsFor_concat_of_ne hname]
    case pos =>
      rw [lastMaterial?, lastStep?, stepsFor_concat_self hname, List.filterMap_append,
        List.getLast?_concat]
      cases step with
      | add n material =>
        obtain rfl : n = name := hname
        simp [make, withKey, Step.material?]
      | disable n | enable n =>
        -- the key keeps its material, if there is one
        obtain rfl : n = name := hname
        rw [List.filterMap_cons_none rfl, List.filterMap_nil, List.append_nil,
          ← lastMaterial?]
        simp only [make, setEnabled, ih]
        cases hlast : lastMaterial? steps n <;> simp [ih, hlast]

theorem material_eq_ok_iff :
    (after steps).material name = .ok material ↔ Serves steps name material := by
  rw [MasterKeys.material, find?_after]
  constructor
  · intro h
    cases hlast : lastMaterial? steps name with
    | none => simp [hlast] at h
    | some found =>
      by_cases henabled : lastStep? steps name = some (.disable name)
      · simp [hlast, henabled] at h
      · obtain rfl : found = material := by simpa [hlast, henabled] using h
        exact ⟨hlast, henabled⟩
  · rintro ⟨hlast, henabled⟩
    simp [hlast, henabled]

theorem material_eq_error_iff :
    (after steps).material name = .error fault ↔
      (lastMaterial? steps name = none ∧ fault = .keyNotFound name) ∨
        (lastMaterial? steps name ≠ none ∧ lastStep? steps name = some (.disable name) ∧
          fault = .keyDisabled name) := by
  rw [MasterKeys.material, find?_after]
  cases hlast : lastMaterial? steps name with
  | none => simp [eq_comm]
  | some found =>
    by_cases henabled : lastStep? steps name = some (.disable name)
    · simp [henabled, eq_comm]
    · simp [henabled]

/-! ### The bytes of a ciphertext -/

/-- What begins with a nonce is split after it. -/
theorem splitNonce?_eq_some_iff {bytes rest : List UInt8} :
    splitNonce? bytes = some (nonce, rest) ↔ bytes = nonce.bytes ++ rest := by
  constructor
  · intro h
    unfold splitNonce? at h
    split at h
    · obtain ⟨rfl, rfl⟩ := Prod.mk.inj (Option.some.inj h)
      exact (List.take_append_drop nonceSize bytes).symm
    · cases h
  · rintro rfl
    exact splitNonce?_append nonce rest

theorem splitNonce?_eq_none_iff {bytes : List UInt8} :
    splitNonce? bytes = none ↔ bytes.length < 12 := by
  have hlength : (bytes.take nonceSize).length = min 12 bytes.length := List.length_take
  unfold splitNonce?
  split
  case isTrue h =>
    simp only [reduceCtorEq, false_iff]
    omega
  case isFalse h =>
    simp only [true_iff]
    omega

/-- Under a key that serves, what is decrypted depends on what stands behind the nonce. -/
theorem decrypt_of_serves (hserves : Serves steps c.key material) {rest : List UInt8}
    (hbytes : c.bytes = nonce.bytes ++ rest) :
    (after steps).decrypt c =
      match Cipher.Aead.decrypt? material nonce (Text.Utf8.ofString c.key) rest with
      | none => .error .notAuthentic
      | some bytes =>
        match Secret.ofBytes bytes with
        | .ok secret => .ok secret
        | .error fault =>
          .error (.other ("decrypted secret is invalid: " ++ fault.toError.message)) := by
  have hmaterial := material_eq_ok_iff.2 hserves
  have hsplit := splitNonce?_eq_some_iff.2 hbytes
  cases hopen : Cipher.Aead.decrypt? material nonce (Text.Utf8.ofString c.key) rest with
  | none => simp only [decrypt, hmaterial, hsplit, hopen]
  | some bytes => cases hsecret : Secret.ofBytes bytes with
    | ok secret => simp only [decrypt, hmaterial, hsplit, hopen, hsecret]
    | error fault => simp only [decrypt, hmaterial, hsplit, hopen, hsecret]

/-- An encrypted message is given back if it is a secret. -/
theorem decrypt_of_encrypts (hserves : Serves steps c.key material)
    (hbytes : c.bytes = nonce.bytes ++ sealedBytes) {message : List UInt8}
    (h : Cipher.Aead.Encrypts material nonce (Text.Utf8.ofString c.key) message sealedBytes) :
    (after steps).decrypt c =
      match Secret.ofBytes message with
      | .ok secret => .ok secret
      | .error fault =>
        .error (.other ("decrypted secret is invalid: " ++ fault.toError.message)) := by
  rw [decrypt_of_serves hserves hbytes,
    Cipher.Aead.decrypt?_eq_some_iff.2 (Cipher.Aead.encrypts_iff.1 h)]

/-- Each reason to refuse a ciphertext does. -/
theorem Refuses.decrypt_eq (h : Refuses steps c fault) :
    (after steps).decrypt c = .error fault := by
  cases h with
  | unknown h =>
    simp only [decrypt, material_eq_error_iff.2 (.inl ⟨h, rfl⟩)]
  | disabled hknown h =>
    simp only [decrypt, material_eq_error_iff.2 (.inr ⟨hknown, h, rfl⟩)]
  | short hserves h =>
    cases hsplit : splitNonce? c.bytes with
    | none => simp only [decrypt, material_eq_ok_iff.2 hserves, hsplit]
    | some parts =>
      -- what is left behind the nonce is no tag
      obtain ⟨nonce, rest⟩ := parts
      have hbytes := splitNonce?_eq_some_iff.1 hsplit
      have hshort : rest.length < 16 := by
        rw [hbytes, List.length_append, nonce.length_eq] at h
        omega
      rw [decrypt_of_serves hserves hbytes,
        Cipher.Aead.decrypt?_eq_none_iff.2 (.inl hshort)]
  | forged hserves hbytes hlength h =>
    rw [decrypt_of_serves hserves hbytes, Cipher.Aead.decrypt?_eq_none_iff.2 (.inr ?_)]
    rw [List.length_append, hlength, Nat.add_sub_cancel, List.drop_left, List.take_left]
    exact h
  | empty hserves hbytes h =>
    rw [decrypt_of_encrypts hserves hbytes h]
    rfl
  | tooLong hserves hbytes hlong h =>
    rw [decrypt_of_encrypts hserves hbytes h, Secret.ofBytes_eq_error_iff.2 (.inr ⟨hlong, rfl⟩)]

/-- What is no encrypted form of anything behind its nonce is too short, or its tag is wrong. -/
theorem refuses_of_decrypt?_eq_none (hserves : Serves steps c.key material) {rest : List UInt8}
    (hbytes : c.bytes = nonce.bytes ++ rest)
    (h : Cipher.Aead.decrypt? material nonce (Text.Utf8.ofString c.key) rest = none) :
    Refuses steps c .notAuthentic := by
  have hlength : c.bytes.length = 12 + rest.length := by
    rw [hbytes, List.length_append, nonce.length_eq]
  by_cases hshort : c.bytes.length < 28
  case pos => exact .short hserves hshort
  case neg =>
    rcases Cipher.Aead.decrypt?_eq_none_iff.1 h with hrest | htag
    · omega
    · refine .forged hserves (hbytes.trans ?_) ?_ htag
      · rw [List.take_append_drop]
      · rw [List.length_drop]
        omega

/-- A ciphertext is the encrypted form of a secret, or there is a reason to refuse it. -/
theorem refuses_or_encrypts (steps : List Step) (c : Ciphertext) :
    (∃ fault, Refuses steps c fault) ∨
      ∃ (secret : Secret), ∃ material nonce sealedBytes, Serves steps c.key material ∧
        c.bytes = nonce.bytes ++ sealedBytes ∧
          Cipher.Aead.Encrypts material nonce (Text.Utf8.ofString c.key) secret.bytes
            sealedBytes := by
  -- the reasons in the order in which they are looked for
  cases hmaterial : lastMaterial? steps c.key with
  | none => exact .inl ⟨_, .unknown hmaterial⟩
  | some material =>
    by_cases hdisabled : lastStep? steps c.key = some (.disable c.key)
    · exact .inl ⟨_, .disabled (by simp [hmaterial]) hdisabled⟩
    have hserves : Serves steps c.key material := ⟨hmaterial, hdisabled⟩
    cases hsplit : splitNonce? c.bytes with
    | none =>
      have hlength := splitNonce?_eq_none_iff.1 hsplit
      exact .inl ⟨_, .short hserves (by omega)⟩
    | some parts =>
      obtain ⟨nonce, rest⟩ := parts
      have hbytes := splitNonce?_eq_some_iff.1 hsplit
      cases hmessage : Cipher.Aead.decrypt? material nonce (Text.Utf8.ofString c.key) rest with
      | none => exact .inl ⟨_, refuses_of_decrypt?_eq_none hserves hbytes hmessage⟩
      | some message =>
        have hencrypts :=
          Cipher.Aead.encrypts_iff.2 (Cipher.Aead.decrypt?_eq_some_iff.1 hmessage)
        cases hsecret : Secret.ofBytes message with
        | ok secret =>
          rw [← Secret.ofBytes_eq_ok_iff.1 hsecret] at hencrypts
          exact .inr ⟨secret, material, nonce, rest, hserves, hbytes, hencrypts⟩
        | error fault =>
          rcases Secret.ofBytes_eq_error_iff.1 hsecret with ⟨rfl, -⟩ | ⟨hlong, -⟩
          · exact .inl ⟨_, .empty hserves hbytes hencrypts⟩
          · exact .inl ⟨_, .tooLong hserves hbytes hlong hencrypts⟩

/-- The ciphertexts that are decrypted to a secret. -/
theorem decrypt_eq_ok_iff :
    (after steps).decrypt c = .ok secret ↔
      ∃ material nonce sealedBytes, Serves steps c.key material ∧
        c.bytes = nonce.bytes ++ sealedBytes ∧
          Cipher.Aead.Encrypts material nonce (Text.Utf8.ofString c.key) secret.bytes
            sealedBytes := by
  have hdecrypt {material : Cipher.Key} {nonce : Cipher.Nonce} {sealedBytes : List UInt8}
      {secret : Secret} (hserves : Serves steps c.key material)
      (hbytes : c.bytes = nonce.bytes ++ sealedBytes)
      (h : Cipher.Aead.Encrypts material nonce (Text.Utf8.ofString c.key) secret.bytes
        sealedBytes) : (after steps).decrypt c = .ok secret := by
    rw [decrypt_of_encrypts hserves hbytes h, Secret.ofBytes_bytes]
  refine ⟨fun h => ?_, fun ⟨_, _, _, hserves, hbytes, h⟩ => hdecrypt hserves hbytes h⟩
  rcases refuses_or_encrypts steps c with
    ⟨fault, hrefuses⟩ | ⟨found, material, nonce, sealedBytes, hserves, hbytes, hencrypts⟩
  · cases h.symm.trans hrefuses.decrypt_eq
  · obtain rfl := Except.ok.inj (h.symm.trans (hdecrypt hserves hbytes hencrypts))
    exact ⟨material, nonce, sealedBytes, hserves, hbytes, hencrypts⟩

/-- A ciphertext is refused for a reason. -/
theorem decrypt_eq_error_iff :
    (after steps).decrypt c = .error fault ↔ Refuses steps c fault := by
  refine ⟨fun h => ?_, Refuses.decrypt_eq⟩
  rcases refuses_or_encrypts steps c with ⟨found, hrefuses⟩ | ⟨secret, hencrypts⟩
  · obtain rfl := Except.error.inj (h.symm.trans hrefuses.decrypt_eq)
    exact hrefuses
  · cases h.symm.trans (decrypt_eq_ok_iff.2 hencrypts)

/-! ### What follows -/

/-- A ciphertext whose tag is changed is refused. -/
theorem decrypt_of_tag_ne (h : (after steps).decrypt c = .ok secret) {tag : List UInt8}
    (hlength : tag.length = 16) (hne : tag ≠ c.bytes.drop (c.bytes.length - 16)) :
    (after steps).decrypt ⟨c.key, c.bytes.take (c.bytes.length - 16) ++ tag⟩ =
      .error .notAuthentic := by
  obtain ⟨material, nonce, sealedBytes, hserves, hbytes, hencrypts⟩ := decrypt_eq_ok_iff.1 h
  have hsize : c.bytes.length - 16 = nonce.bytes.length + secret.bytes.length := by
    rw [hbytes, List.length_append, hencrypts.length]
    omega
  have htake : c.bytes.take (c.bytes.length - 16) =
      nonce.bytes ++ sealedBytes.take secret.bytes.length := by
    rw [hsize, hbytes, List.take_length_add_append]
  have hdrop : c.bytes.drop (c.bytes.length - 16) = sealedBytes.drop secret.bytes.length := by
    rw [hsize, hbytes, List.drop_length_add_append]
  have hsixteen : (sealedBytes.drop secret.bytes.length).length = 16 := by
    rw [List.length_drop, hencrypts.length]
    omega
  have hchanged : c.bytes.take (c.bytes.length - 16) ++ tag =
      nonce.bytes ++ (sealedBytes.take secret.bytes.length ++ tag) := by
    rw [htake, List.append_assoc]
  refine Refuses.decrypt_eq (.forged hserves hchanged hlength fun hnumber => hne (hdrop ▸ ?_))
  -- two tags of one number are the same
  rw [← Cipher.toLittleEndian_ofLittleEndian tag, hlength, hnumber, ← hencrypts.tag, ← hsixteen,
    Cipher.toLittleEndian_ofLittleEndian]

/-- What was done to other keys does not matter. -/
theorem material_congr {steps' : List Step} (h : stepsFor steps' name = stepsFor steps name) :
    (after steps').material name = (after steps).material name := by
  have hfind : (after steps').keys.find? name = (after steps).keys.find? name := by
    rw [find?_after, find?_after, lastMaterial?, lastStep?, h, lastMaterial?, lastStep?]
  rw [MasterKeys.material, hfind, MasterKeys.material]

/-- **Decryption is the inverse of encryption.** After any steps, a ciphertext is decrypted to a
secret exactly if the key that it names serves and its bytes are a nonce and the encrypted form of
that secret under the key, the nonce and the name; every other ciphertext is refused for the first
reason that applies. So a secret that is encrypted under a key that serves is given back, a
ciphertext whose tag is changed is refused, and what is done to a key matters for no other. -/
theorem decrypt_inverts_encrypt (steps : List Step) :
    (∀ c secret, (after steps).decrypt c = .ok secret ↔
      ∃ material nonce sealedBytes, Serves steps c.key material ∧
        c.bytes = nonce.bytes ++ sealedBytes ∧
          Cipher.Aead.Encrypts material nonce (Text.Utf8.ofString c.key) secret.bytes
            sealedBytes) ∧
    (∀ c fault, (after steps).decrypt c = .error fault ↔ Refuses steps c fault) ∧
    (∀ name material nonce secret, Serves steps name material →
      ∃ c, (after steps).encrypt nonce name secret = .ok c ∧
        (after steps).decrypt c = .ok secret) ∧
    (∀ c secret tag, (after steps).decrypt c = .ok secret → tag.length = 16 →
      tag ≠ c.bytes.drop (c.bytes.length - 16) →
        (after steps).decrypt ⟨c.key, c.bytes.take (c.bytes.length - 16) ++ tag⟩ =
          .error .notAuthentic) ∧
    ∀ steps' name, stepsFor steps' name = stepsFor steps name →
      (∀ nonce secret,
        (after steps').encrypt nonce name secret = (after steps).encrypt nonce name secret) ∧
      ∀ bytes, (after steps').decrypt ⟨name, bytes⟩ = (after steps).decrypt ⟨name, bytes⟩ := by
  refine ⟨fun c secret => decrypt_eq_ok_iff, fun c fault => decrypt_eq_error_iff,
    fun name material nonce secret hserves => ?_,
    fun c secret tag h hlength hne => decrypt_of_tag_ne h hlength hne,
    fun steps' name hsame => ⟨fun nonce secret => ?_, fun bytes => ?_⟩⟩
  · have hmaterial := material_eq_ok_iff.2 hserves
    refine ⟨sealOf name material nonce secret, ?_, ?_⟩
    · rw [encrypt_eq, hmaterial]
      rfl
    · have hkey (key : Cipher.Key) (hok : (after steps).material name = .ok key) :
          key = material := Except.ok.inj (hok.symm.trans hmaterial)
      rw [decrypt_sealOf _ name hkey, hmaterial]
      rfl
  · rw [encrypt_eq, encrypt_eq, material_congr hsame]
  · simp only [decrypt, material_congr hsame]

/-- A secret is given back after its key was disabled and enabled again, whatever was done to
another key. -/
theorem decrypt_inverts_encrypt_reenabled :
    let steps : List Step := [.add "k" (.ofNat 1), .add "j" (.ofNat 2), .disable "k", .disable "j",
      .enable "k"]
    let secret : Secret := ⟨[0x73, 0x31], by decide, by decide⟩
    Serves steps "k" (.ofNat 1) ∧
      ∃ c, (after steps).encrypt (.ofNat 7) "k" secret = .ok c ∧
        (after steps).decrypt c = .ok secret := by
  intro steps secret
  have hserves : Serves steps "k" (.ofNat 1) := ⟨by decide +kernel, by decide +kernel⟩
  exact ⟨hserves, (decrypt_inverts_encrypt steps).2.2.1 "k" (.ofNat 1) (.ofNat 7) secret hserves⟩

end Keyring.MasterKeys
