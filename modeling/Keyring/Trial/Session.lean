import Keyring.Store.Alone
import Keyring.Trial.Kms

/-!
# Sessions with a key store

For trying out key stores: a store with a key management system under direction, on which calls are
made one after the other or together. `settle` runs every call until it is over or has to wait. The
order is fixed: each call runs as far as it can before the next one does.
-/

namespace Keyring.Trial

/-- A session with a key store. -/
structure Session where
  /-- The store. -/
  store : Store
  /-- The key management system that it uses. -/
  kms : Kms
  /-- Whether writing to a new file fails. -/
  failWrites : Bool
  /-- The calls that are not over, in the order in which they were made. -/
  active : List Nat
  /-- The number of the next call. -/
  next : Nat

namespace Session

/-- A session that begins. -/
def new (store : Store) (kms : Kms) : Session := ⟨store, kms, false, [], 0⟩

/-- What the environment answers to the next step of a call, unless the call has to wait. -/
def reply? (s : Session) (id : Nat) : Store.Stage → Option (Store.Reply × Kms)
  | .encrypt secret =>
    let (encrypted, kms) := s.kms.encrypt (s.store.settings.masterKey.getD "") secret
    some ({ Store.Reply.nothing with encrypted }, kms)
  | .work (.decrypt c) =>
    (s.kms.decrypt? id c).map fun (decrypted, kms) => ({ Store.Reply.nothing with decrypted }, kms)
  | .work (.write _ record _) =>
    some
      (if s.failWrites then { Store.Reply.nothing with device := .refuse .writeRefused }
        else { Store.Reply.nothing with device := .accept record.length }, s.kms)
  | _ => some (Store.Reply.nothing, s.kms)

/-- Whether a call waits for a secret. -/
def isDecrypting : Option Store.Stage → Bool
  | some (.work (.decrypt _)) => true
  | _ => false

/-- Make the next step of a call, unless it has to wait. -/
def step (s : Session) (id : Nat) : Session :=
  match s.store.stage? id with
  | none => s
  | some stage =>
    match s.reply? id stage with
    | none => s
    | some (reply, kms) =>
      let store := s.store.step id reply
      let entered := isDecrypting (store.stage? id) && !isDecrypting (some stage)
      { s with store, kms := if entered then kms.enter id store.decryptions else kms }

/-- Run a call until it is over or has to wait. -/
def runCall (s : Session) (id : Nat) : Session :=
  Nat.repeat (fun s => s.step id) Store.longestCall s

/-- Run every call once, and forget those that are over. -/
def runAll (s : Session) : Session :=
  let s := s.active.foldl runCall s
  { s with active := s.active.filter fun id => (s.store.outcome? id).isNone }

/-- Run every call until it is over or has to wait, in at most so many rounds: after a round in
which no call came to its end nothing changes any more. -/
def settleWithin : Nat → Session → Session
  | 0, s => s
  | rounds + 1, s =>
    let t := s.runAll
    if t.active.length < s.active.length then settleWithin rounds t else t

/-- Run every call until it is over or has to wait. -/
def settle (s : Session) : Session := settleWithin (s.active.length + 1) s

/-- Make a call without running it; gives its number. -/
def call (s : Session) (name : String) (operation : Operation) : Nat × Session :=
  (s.next, { s with
    store := s.store.call s.next name operation
    active := s.active ++ [s.next]
    next := s.next + 1 })

/-- How a call ended, if it has. -/
def outcome? (s : Session) (id : Nat) : Option Outcome := s.store.outcome? id

/-- Forget calls. -/
def forget (s : Session) (ids : List Nat) : Session :=
  { s with
    store := ids.foldl Store.abandon s.store
    active := s.active.filter fun id => !ids.contains id }

/-- Make calls together and run them. Gives how they ended; one that has to wait is given up. -/
def together (s : Session) (calls : List (String × Operation)) :
    List (Option Outcome) × Session :=
  let (ids, s) := calls.foldl (fun (ids, s) c =>
    let (id, s) := s.call c.1 c.2
    (id :: ids, s)) (([] : List Nat), s)
  let s := s.settle
  (ids.reverse.map s.outcome?, s.forget ids)

/-- Make a call and run it. -/
def perform (s : Session) (name : String) (operation : Operation) :
    Option Outcome × Session :=
  let (outcomes, s) := s.together [(name, operation)]
  (outcomes.head?.join, s)

/-- Let time pass continuously. -/
def advance (s : Session) (duration : Nat) : Session :=
  { s with store := { s.store with cache := s.store.cache.advance duration } }

/-- Move the clock at once. -/
def jump (s : Session) (duration : Nat) : Session :=
  { s with store := { s.store with cache := s.store.cache.jump duration } }

/-- Run every call until it is over or has to wait, and let a moment pass. -/
def settleAndPass (s : Session) : Session := s.settle.advance Time.millisecond

/-- Change the key management system. -/
def withKms (s : Session) (change : Kms → Kms) : Session := { s with kms := change s.kms }

/-- Count anew how often something was given to be encrypted and decrypted. -/
def resetCounts (s : Session) : Session :=
  { s with store := { s.store with encryptions := 0, decryptions := 0 } }

/-- Take the events out of the log. -/
def takeLog (s : Session) : List Store.LogEvent × Session :=
  (s.store.log, { s with store := { s.store with log := [] } })

/-- Replace the store by one that has just been set up on the same disk. -/
def reopen (s : Session) (settings : Store.Settings) : Session :=
  { s with
    store :=
      { Store.new settings s.store.disk s.store.cache.now with
        log := s.store.log
        encryptions := s.store.encryptions
        decryptions := s.store.decryptions }
    active := [] }

end Session

end Keyring.Trial
