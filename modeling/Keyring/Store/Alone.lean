import Keyring.Kms.MasterKeys
import Keyring.Store.Step

/-!
# A call alone

A call that runs from its start to its end with no other call in between, on a device that takes
everything, with master keys in memory.
-/

namespace Keyring.Store

/-- An answer for a step that asks for nothing. -/
def Reply.nothing : Reply where
  device := .accept 0
  encrypted := .error .notAuthentic
  decrypted := .error .notAuthentic

/-- The answer of a device that takes everything and of master keys. -/
def Stage.reply (keys : MasterKeys) (masterKey : Option String) (nonce : Cipher.Nonce) :
    Stage → Reply
  | .encrypt secret =>
    { Reply.nothing with encrypted := keys.encrypt nonce (masterKey.getD "") secret }
  | .work (.decrypt c) => { Reply.nothing with decrypted := keys.decrypt c }
  | .work (.write _ bytes _) => { Reply.nothing with device := .accept bytes.length }
  | _ => Reply.nothing

/-- The largest number of steps of a call whose record is written at once. -/
def longestCall : Nat := 16

/-- Make so many steps of a call. -/
def runSteps (keys : MasterKeys) (nonce : Cipher.Nonce) (id : Nat) : Nat → Store → Store
  | 0, s => s
  | steps + 1, s =>
    match s.stage? id with
    | none => s
    | some stage =>
      runSteps keys nonce id steps (s.step id (stage.reply keys s.settings.masterKey nonce))

/-- Make a call and run it to its end. -/
def runAlone (s : Store) (keys : MasterKeys) (nonce : Cipher.Nonce) (id : Nat) (name : String)
    (operation : Operation) : Option Outcome × Store :=
  let s := runSteps keys nonce id longestCall (s.call id name operation)
  (s.outcome? id, s)

end Keyring.Store
