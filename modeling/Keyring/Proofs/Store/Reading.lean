import Keyring.Proofs.Store.Simulation
import Keyring.Proofs.Store.Tampering

/-!
# Readers agree

Every call that misses the cache reads and opens the record for itself, and each may find another
secret: the record changes behind the back of the store, or the key management system answers as it
likes. A secret that was read is put into the cache only if there is none, and what the caller gets
is what the cache then holds.

- `OnlyRead`: a name is neither created nor deleted nor evicted;
- `Finds`: a call that was not decided at first has ended with a secret;
- `gets_agree`: all such calls have ended with the secret that is cached from then on.
-/

namespace Keyring.Store

/-- Work that puts a created secret into the cache or takes a name out of it. -/
def Work.replacesCached : Work → Bool
  | .cacheCreated _ | .purge _ => true
  | _ => false

/-- A name is neither created nor deleted nor evicted: no call for it puts a created secret into the
cache or takes the name out of it, no sweep does, and the store is not set up anew. -/
def OnlyRead (name : String) (s : Store) : Occurrence → Prop
  | .incident (.move (.step id _)) => ∀ call ∈ s.calls.find? id, call.name = name →
    call.stage.work?.any Work.replacesCached = false
  | .incident (.move (.finishSweep i)) => (s.move (.finishSweep i)).cached? name = s.cached? name
  | .incident (.move (.evict n)) => n ≠ name
  | .incident .restart => False
  | .incident (.move (.call _ _ _)) | .incident (.move (.wait _))
  | .incident (.move (.beginSweep _)) | .incident (.drop _) | .tamper _ _ => True

instance decidableOnlyRead (name : String) (s : Store) :
    (o : Occurrence) → Decidable (OnlyRead name s o)
  | .incident (.move (.step id _)) =>
    inferInstanceAs (Decidable (∀ call ∈ s.calls.find? id, call.name = name →
      call.stage.work?.any Work.replacesCached = false))
  | .incident (.move (.finishSweep i)) =>
    inferInstanceAs (Decidable ((s.move (.finishSweep i)).cached? name = s.cached? name))
  | .incident (.move (.evict n)) => inferInstanceAs (Decidable (n ≠ name))
  | .incident .restart => isFalse id
  | .incident (.move (.call _ _ _)) | .incident (.move (.wait _))
  | .incident (.move (.beginSweep _)) | .incident (.drop _) | .tamper _ _ => isTrue trivial

/-- A number under which no call is decided yet, or none was made. -/
def Open (s : Store) (id : Nat) : Prop := ∀ call ∈ s.calls.find? id, call.stage.verdict? = none

/-- A call for a name that was not decided at first has ended with a secret. -/
def Finds (s t : Store) (name : String) (id : Nat) (secret : Secret) : Prop :=
  s.Open id ∧ ∃ call ∈ t.calls.find? id, call.name = name ∧
    call.stage = .finished (.ok (.secret secret))

section

variable {s t u : Store} {id : Nat} {name : String} {operation : Operation} {reply : Reply}
  {call : Call} {stage stage' : Stage} {change : Change} {secret held : Secret}
  {occurrences : List Occurrence}

/-! ### One step -/

/-- A step that is not for creating or deleting leaves what is cached. -/
theorem Next.cachedAfter_of_some (h : Next s id name operation reply stage change stage')
    (hreads : stage.work?.any Work.replacesCached = false) (hheld : s.cached? name = some held) :
    change.cachedAfter (s.cached? name) = some held := by
  cases h with
  -- a secret that was read gives way to the one that is cached
  | cachedRead => simp [Change.cachedAfter, hheld]
  | cachedCreated | purged => cases hreads
  | _ => exact hheld

/-- A call that is decided on a secret by a step leaves that secret in the cache. -/
theorem Next.cachedAfter_of_verdict (h : Next s id name operation reply stage change stage')
    (hreads : stage.work?.any Work.replacesCached = false) (hopen : stage.verdict? = none)
    (hverdict : stage'.verdict? = some (.ok (.secret secret))) :
    change.cachedAfter (s.cached? name) = some secret := by
  cases h with
  | hit hheld =>
    obtain rfl : _ = secret := by simpa [Stage.verdict?] using hverdict
    exact hheld
  | cachedRead =>
    obtain rfl : _ = secret := by simpa [Stage.verdict?] using hverdict
    rfl
  | cachedCreated | purged => cases hreads
  | left | finished => cases hopen
  | @granted work => cases work <;> cases hverdict
  | _ => cases hverdict

/-- A call that is decided stays so. -/
theorem Next.verdict?_eq (h : Next s id name operation reply stage change stage')
    (hreads : stage.work?.any Work.replacesCached = false) {outcome : Outcome}
    (hverdict : stage.verdict? = some outcome) : stage'.verdict? = some outcome := by
  cases h with
  | cachedCreated => cases hreads
  | left | finished => exact hverdict
  | _ => cases hverdict

/-- A call that looks a cached name up ends with what is cached. -/
theorem outcome?_step_of_lookUp (hsound : s.Sound) (hcall : s.calls.find? id = some call)
    (hlookUp : call.stage = .lookUp) (hheld : s.cached? call.name = some held) (reply : Reply) :
    (s.step id reply).outcome? id = some (.ok (.secret held)) := by
  obtain ⟨change, stage, hadv⟩ := exists_advances hcall (hsound.fits id call hcall) reply
  have hnext := hadv.next
  rw [hlookUp] at hnext
  apply outcome?_eq_some_iff.2
  refine ⟨{ call with stage }, by rw [hadv.calls, if_pos rfl], ?_⟩
  cases hnext with
  | hit h => rw [hheld] at h; rw [Option.some.inj h]
  | miss h => rw [hheld] at h; cases h

/-- A move that no call makes leaves a name in the cache that is only read. -/
theorem OnlyRead.cached?_move {m : Move} (h : OnlyRead name s (.incident (.move m)))
    (hother : ∀ id reply, m ≠ .step id reply) : (s.move m).cached? name = s.cached? name := by
  cases m with
  | step id reply => exact absurd rfl (hother id reply)
  | call _ _ _ | wait _ => rfl
  | beginSweep i => exact cached?_beginSweep s i name
  | finishSweep i => exact h
  | evict n =>
    apply (Cache.find?_erase _ _ _).trans
    exact if_neg (Ne.symm h)

/-! ### Runs -/

/-- Calls that were not decided at first and are decided on a secret are so on what is cached. -/
def Told (s t : Store) (name : String) : Prop :=
  ∀ id call, t.calls.find? id = some call → call.name = name → s.Open id →
    ∀ secret, call.stage.verdict? = some (.ok (.secret secret)) → t.cached? name = some secret

theorem told_self (s : Store) (name : String) : s.Told s name := by
  intro id call hcall _ hopen secret hverdict
  rw [hopen call hcall] at hverdict
  cases hverdict

/-- A step of a call for a name that is only read leaves what is cached. -/
theorem cached?_advances (hadv : s.Advances t id call reply change stage)
    (hreads : call.name = name → call.stage.work?.any Work.replacesCached = false)
    (hheld : s.cached? name = some held) : t.cached? name = some held := by
  rw [hadv.cached]
  split
  case isTrue hname =>
    subst hname
    exact hadv.next.cachedAfter_of_some (hreads rfl) hheld
  case isFalse => exact hheld

/-- What calls are decided on goes on being cached. -/
theorem Told.advances (h : s.Told t name) (hcall : t.calls.find? id = some call)
    (hadv : t.Advances u id call reply change stage)
    (hreads : call.name = name → call.stage.work?.any Work.replacesCached = false) :
    s.Told u name := by
  intro j other hother hname hopen secret hverdict
  rw [hadv.calls] at hother
  split at hother
  case isFalse => exact cached?_advances hadv hreads (h j other hother hname hopen secret hverdict)
  case isTrue hj =>
    subst hj
    obtain rfl := Option.some.inj hother
    cases hbefore : call.stage.verdict? with
    | none =>
      rw [hadv.cached, if_pos hname.symm, ← hname]
      exact hadv.next.cachedAfter_of_verdict (hreads hname) hbefore hverdict
    | some outcome =>
      -- the call was decided before, on the same secret
      obtain rfl : outcome = .ok (.secret secret) :=
        Option.some.inj ((hadv.next.verdict?_eq (hreads hname) hbefore).symm.trans hverdict)
      exact cached?_advances hadv hreads (h j call hcall hname hopen secret hbefore)

/-- Calls that were not decided at first are told what is cached, after a run in which the name is
only read. -/
theorem Admissible.told (hadmissible : Admissible (OnlyRead name) s occurrences)
    (hsound : s.Sound) : s.Told (s.occurAll occurrences) name := by
  refine (hadmissible.keeps (P := fun u => s.Told u name) ?_ ?_ ?_ ?_ ?_ ?_ hsound
    (told_self s name)).2
  case refine_1 =>
    intro u id n operation _ htold _ _
    exact forall_calls_call (fun _ _ _ hverdict => by cases hverdict) htold
  case refine_2 =>
    intro u id call reply change stage _ htold hcall hreads hadv
    exact htold.advances hcall hadv (hreads call hcall)
  case refine_3 =>
    intro u m _ htold hother hreads hfades j other hfind
    rw [hfades.calls] at hfind
    rw [hreads.cached?_move hother]
    exact htold j other hfind
  case refine_4 =>
    intro u id _ htold _ j other hfind
    exact htold j other (find?_of_abandon hfind).2
  case refine_5 =>
    intro u _ _ hreads
    exact absurd hreads id
  case refine_6 =>
    intro u disk table _ htold _
    exact htold

/-- What is cached stays so while the name is only read. -/
theorem Admissible.cached? (hadmissible : Admissible (OnlyRead name) s occurrences)
    (hsound : s.Sound) (hheld : s.cached? name = some held) :
    (s.occurAll occurrences).cached? name = some held := by
  refine (hadmissible.keeps (P := fun u => u.cached? name = some held) ?_ ?_ ?_ ?_ ?_ ?_ hsound
    hheld).2
  case refine_1 => exact fun u id n operation _ hu _ _ => hu
  case refine_2 =>
    intro u id call reply change stage _ hu hcall hreads hadv
    exact cached?_advances hadv (hreads call hcall) hu
  case refine_3 =>
    intro u m _ hu hother hreads _
    exact (hreads.cached?_move hother).trans hu
  case refine_4 => exact fun u id _ hu _ => hu
  case refine_5 => exact fun u _ _ hreads => absurd hreads id
  case refine_6 => exact fun u disk table _ hu _ => hu

/-- Whatever the key management system answers and whoever changes the record, all calls for a name
that is only read end with the same secret, if they end with one. From the first such end on, that
secret is cached, and whoever looks the name up gets it. -/
theorem gets_agree {settings : Settings} {disk : Disk} {now : Nat}
    {before during later : List Occurrence}
    (hbefore : Admissible (fun _ _ => True) (new settings disk now) before)
    (hreads : Admissible (OnlyRead name) ((new settings disk now).occurAll before)
      (during ++ later)) :
    let s := (new settings disk now).occurAll before
    let t := s.occurAll during
    let u := t.occurAll later
    ∀ id secret, s.Finds t name id secret →
      (∀ j other, s.Finds u name j other → other = secret) ∧
      u.cached? name = some secret ∧ (u.cache.get name).1 = some secret ∧
      ∀ j call reply, u.calls.find? j = some call → call.name = name → call.stage = .lookUp →
        (u.step j reply).outcome? j = some (.ok (.secret secret)) := by
  intro s t u id secret hfinds
  obtain ⟨hduring, hlater⟩ := admissible_append.1 hreads
  have hs : s.Sound := hbefore.sound (sound_new settings disk now)
  have ht : t.Sound := hduring.sound hs
  have hu : u = s.occurAll (during ++ later) := (occurAll_append s during later).symm
  -- the secret is cached where the call has ended, and from there on
  have hcached : u.cached? name = some secret := by
    obtain ⟨hopen, call, hcall, hname, hstage⟩ := hfinds
    apply hlater.cached? ht
    exact hduring.told hs id call hcall hname hopen secret (by rw [hstage]; rfl)
  refine ⟨fun j other hother => ?_, hcached, (Cache.get_fst _ _ _).trans hcached,
    fun j call reply hcall hname hlookUp => ?_⟩
  · obtain ⟨hopen, call, hcall, hname, hstage⟩ := hother
    rw [hu] at hcall hcached
    have htold := hreads.told hs j call hcall hname hopen other (by rw [hstage]; rfl)
    exact Option.some.inj (htold.symm.trans hcached)
  · subst hname
    exact outcome?_step_of_lookUp (hlater.sound ht) hcall hlookUp hcached reply

end

namespace Sample

/-- A secret of one byte. -/
def otherSecret : Secret := ⟨[0xcc], by decide, by decide⟩

/-- A record is put where the file of a key is. -/
def putRecord : Occurrence :=
  .tamper ((filesWith (some "k")).disk.put ["keys", "a"] (.file 0o600 ciphertext.toRecord)) .empty

/-- So much happens through calls. -/
def moved (moves : List Move) : List Occurrence := moves.map fun m => .incident (.move m)

/-- Two calls read the record, and each has it decrypted to another secret; the one that began last
is the first to put its own into the cache. -/
def readDifferently : List Occurrence :=
  moved (.call 1 "a" .get :: .call 2 "a" .get :: steps 1 6 ++ steps 2 6 ++
    [.step 1 (reply 0), .step 2 { reply 0 with decrypted := .ok otherSecret }] ++
    steps 2 2 ++ steps 1 2)

/-- The record goes away, and a third call is about to look the name up. -/
def readLater : List Occurrence :=
  .tamper (filesWith (some "k")).disk .empty :: moved (.call 3 "a" .get :: steps 3 1)

end Sample

/-- A call whose own record was decrypted to a secret ends with the other one, which was cached
first; and so does a call that is made when the record is gone. -/
theorem gets_agree_readDifferently :
    let s := (Sample.filesWith (some "k")).occurAll [Sample.putRecord]
    let t := s.occurAll Sample.readDifferently
    s.Finds t "a" 1 Sample.otherSecret ∧
      ((t.occurAll Sample.readLater).step 3 (Sample.reply 0)).outcome? 3 =
        some (.ok (.secret Sample.otherSecret)) := by
  intro s t
  have hbefore : Admissible (fun _ _ => True) (Sample.filesWith (some "k")) [Sample.putRecord] := by
    decide +kernel
  have hreads : Admissible (OnlyRead "a") s (Sample.readDifferently ++ Sample.readLater) := by
    decide +kernel
  have hfinds : s.Finds t "a" 1 Sample.otherSecret := by
    unfold Finds Open
    decide +kernel
  have hcall : (t.occurAll Sample.readLater).calls.find? 3 = some ⟨"a", .get, .lookUp⟩ := by
    decide +kernel
  obtain ⟨-, -, -, hlookUp⟩ := gets_agree hbefore hreads 1 _ hfinds
  exact ⟨hfinds, hlookUp 3 _ _ hcall rfl rfl⟩

end Keyring.Store
