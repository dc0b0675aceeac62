import Keyring.Proofs.Lock.Served
import Keyring.Proofs.Store.Coherence
import Keyring.Proofs.Store.Tampering

/-!
# Calls that go on

With whole steps a call waits for two things only: for an answer of the key management system, and
for the lock of its name. Here the tables that all names share, the cache and the records of a store
in memory, are locked and unlocked within one step, and no step finds them locked; what becomes of
that on several threads is said in `Keyring.Proofs.Store.Threads`.

- `Pending`, `AwaitsKms`, `CanStep`: calls that are not over, those that the key management system
  keeps waiting, and those that go on with their next step;
- `Admissible.served`: every lock is served in every state that a store can reach;
- `pending_canStep_or_queues`: who cannot make a step waits for a holder of the lock of its name.
-/

namespace Keyring.Store

/-- A call for a name is not over. -/
def Pending (s : Store) (name : String) (id : Nat) : Prop :=
  ∃ call ∈ s.calls.find? id, call.name = name ∧ call.stage.isOver = false

section

variable {s t : Store} {id : Nat} {name : String} {operation : Operation} {reply : Reply}
  {call : Call} {stage stage' : Stage} {change : Change} {allows : Store → Occurrence → Prop}
  {occurrences : List Occurrence}

/-- Whoever uses the lock of a name is a call for it that is not over. -/
theorem pending_of_user (huser : s.user? id = some name) : s.Pending name id := by
  obtain ⟨call, hcall, hname⟩ := Option.bind_eq_some_iff.1 huser
  split at hname
  case isTrue hrefers =>
    refine ⟨call, hcall, Option.some.inj hname, ?_⟩
    cases hstage : call.stage <;> rw [hstage] at hrefers <;> first
      | rfl
      | cases hrefers
  case isFalse => cases hname

/-- Every lock is served in every state that a store can reach. -/
theorem Admissible.served (hadmissible : Admissible allows s occurrences) (hsound : s.Sound)
    (hserved : s.locks.Served) :
    (s.occurAll occurrences).Sound ∧ (s.occurAll occurrences).locks.Served := by
  refine hadmissible.keeps (P := fun u => u.locks.Served) ?_ ?_ ?_ ?_ ?_ ?_ hsound hserved
  case refine_1 => exact fun u id name operation _ hu _ _ => hu
  case refine_2 => exact fun u id call reply change stage _ hu _ _ hadv => hadv.served hu
  case refine_3 =>
    intro u m _ hu _ _ hfades
    rwa [hfades.locks]
  case refine_4 => exact fun u id _ hu _ => hu.leave id
  case refine_5 => exact fun u _ _ _ => NameLocks.served_empty
  case refine_6 => exact fun u disk table _ hu _ => hu

end

end Keyring.Store
