import Keyring.Kms.MasterKeys

/-!
# A key management system under direction

For trying out key stores: a key management system that can be told to fail, to keep those who want
something decrypted waiting at a gate, and to give another secret every time. The work is done by
master keys, or by a mask under one name that hides nothing but shows whether it was used.
-/

namespace Keyring.Trial

/-- What does the work. -/
inductive Inner where
  /-- A mask on every byte, under the name of a master key. -/
  | mask (name : String)
  /-- Master keys. -/
  | keys (masterKeys : MasterKeys)

namespace Inner

/-- Put on or take off the mask. -/
def applyMask (bytes : List UInt8) : List UInt8 := bytes.map (· ^^^ 0x5a)

/-- Encrypt a secret. -/
def encrypt (nonce : Cipher.Nonce) (key : String) (secret : Secret) :
    Inner → Except KmsFault Ciphertext
  | mask name =>
    if key = name then .ok ⟨name, applyMask secret.bytes⟩ else .error (.keyNotFound key)
  | keys masterKeys => masterKeys.encrypt nonce key secret

/-- Decrypt a ciphertext. -/
def decrypt (c : Ciphertext) : Inner → Except KmsFault Secret
  | mask name =>
    if c.key = name then
      match Secret.ofBytes (applyMask c.bytes) with
      | .ok secret => .ok secret
      | .error fault => .error (.other fault.toError.message)
    else .error (.incorrectKey c.key)
  | keys masterKeys => masterKeys.decrypt c

end Inner

/-- Somebody who wants something decrypted. -/
structure Visitor where
  /-- The number of the call. -/
  call : Nat
  /-- How many have come, this one included. -/
  serial : Nat
  /-- Whether it waits at the gate. -/
  waiting : Bool
  deriving DecidableEq, Repr

/-- A key management system under direction. -/
structure Kms where
  /-- What does the work. -/
  inner : Inner
  /-- How encrypting is to fail. -/
  encryptFault : Option KmsFault
  /-- How decrypting is to fail. -/
  decryptFault : Option KmsFault
  /-- Whether each decryption gives another secret. -/
  varied : Bool
  /-- Whether the gate is closed. -/
  gated : Bool
  /-- How many more may pass the gate. -/
  passes : Nat
  /-- Who wants something decrypted, the first to come first. -/
  visitors : List Visitor
  /-- How many numbers were used once. -/
  nonces : Nat

namespace Kms

/-- A key management system that does its work. -/
def new (inner : Inner) : Kms := ⟨inner, none, none, false, false, 0, [], 0⟩

/-- Encrypt a secret. -/
def encrypt (k : Kms) (key : String) (secret : Secret) : Except KmsFault Ciphertext × Kms :=
  match k.encryptFault with
  | some fault => (.error fault, k)
  | none =>
    (k.inner.encrypt (.ofNat k.nonces) key secret, { k with nonces := k.nonces + 1 })

/-- Let somebody come who wants something decrypted. -/
def enter (k : Kms) (call serial : Nat) : Kms :=
  if !k.gated then { k with visitors := k.visitors ++ [⟨call, serial, false⟩] }
  else if 0 < k.passes then
    { k with passes := k.passes - 1, visitors := k.visitors ++ [⟨call, serial, false⟩] }
  else { k with visitors := k.visitors ++ [⟨call, serial, true⟩] }

/-- Let the first of those who wait pass. -/
def letPass : List Visitor → Option (List Visitor)
  | [] => none
  | v :: visitors =>
    if v.waiting then some ({ v with waiting := false } :: visitors)
    else (letPass visitors).map (v :: ·)

/-- Let some of those who wait, or who will come, pass the gate. -/
def release (k : Kms) : Nat → Kms
  | 0 => k
  | count + 1 =>
    match letPass k.visitors with
    | some visitors => { k with visitors }.release count
    | none => { k with passes := k.passes + 1 }.release count

/-- The secret that the decryption of a serial number gives when they vary. -/
def variedSecret (serial : Nat) : Secret where
  bytes := List.replicate 32 (UInt8.ofNat serial)
  ne_nil := by simp
  length_le := by simp [Secret.maxSize]

/-- Answer somebody, unless it waits at the gate. -/
def decrypt? (k : Kms) (call : Nat) (c : Ciphertext) : Option (Except KmsFault Secret × Kms) :=
  match k.visitors.find? fun v => v.call = call with
  | none => none
  | some v =>
    if v.waiting then none
    else
      let k := { k with visitors := k.visitors.filter fun v => v.call ≠ call }
      match k.decryptFault with
      | some fault => some (.error fault, k)
      | none => some (if k.varied then .ok (variedSecret v.serial) else k.inner.decrypt c, k)

end Kms

end Keyring.Trial
