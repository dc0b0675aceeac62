import Keyring.Proofs.Store.Lasting

/-!
# Getting a key that lasts

Who gets a key that a call has created finds its secret, in the cache or by way of its record, or
finds that the key is sealed if the record cannot be read. It takes a device that does not fail and
a key management system that decrypts what it has encrypted.

- `Answers`: nothing fails that calls for a key need;
- `Gives`, `Given`: what it gives to get a key that lasts;
- `Lawful.gives`: this for every run in which the record stays.
-/

namespace Keyring.Store

/-- An incident in which nothing fails that calls for a key need: ciphertexts that open are
decrypted, and the file system does as it is asked. -/
def Answers (opens : Ciphertext → Option Secret) (name : String) (s : Store) : Incident → Prop
  | .move (.step id reply) => ∀ call ∈ s.calls.find? id, call.name = name →
    reply.Opens opens call.stage ∧ ∀ stage ∈ (s.step id reply).stage? id, stage.isFailure = false
  | _ => True

instance decidableAnswers (opens : Ciphertext → Option Secret) (name : String) (s : Store) :
    (i : Incident) → Decidable (Answers opens name s i)
  | .move (.step id reply) => inferInstanceAs (Decidable (∀ call ∈ s.calls.find? id,
      call.name = name → reply.Opens opens call.stage ∧
        ∀ stage ∈ (s.step id reply).stage? id, stage.isFailure = false))
  | .move (.call _ _ _) | .move (.wait _) | .move (.beginSweep _) | .move (.finishSweep _)
  | .move (.evict _) | .drop _ | .restart => isTrue trivial

/-- What it may give to get a key that lasts: its secret or, if its record cannot be read, that it
is sealed. -/
def Gives (settings : Settings) (opens : Ciphertext → Option Secret) (secret : Secret)
    (record : List UInt8) (outcome : Outcome) : Prop :=
  outcome = .ok (.secret secret) ∨
    secretOf settings opens record = none ∧ outcome = .error .keySealed

/-- Calls that get a key and were not decided at first are so on what it may give. -/
def Given (gives : Outcome → Prop) (s t : Store) (name : String) : Prop :=
  ∀ id call, t.calls.find? id = some call → call.name = name → call.operation = .get → s.Open id →
    ∀ outcome, call.stage.verdict? = some outcome → gives outcome

section

variable {opens : Ciphertext → Option Secret} {kind : Ciphertext → Prop} {s t : Store} {id : Nat}
  {name : String} {reply : Reply} {call : Call} {stage stage' : Stage} {change : Change}
  {settings : Settings} {secret : Secret} {record : List UInt8} {incidents : List Incident}

/-- A call that has got a key has ended on what it may give. -/
theorem Given.exists_outcome {gives : Outcome → Prop} (h : Given gives s t name) (hopen : s.Open id)
    (hover : ∃ call ∈ t.calls.find? id, call.name = name ∧ call.operation = .get ∧
      call.stage.isOver = true) :
    ∃ outcome, t.outcome? id = some outcome ∧ gives outcome := by
  obtain ⟨call, hcall, hname, hget, hover⟩ := hover
  obtain ⟨outcome, hstage⟩ := exists_finished hover
  refine ⟨outcome, outcome?_eq_some_iff.2 ⟨call, hcall, hstage⟩, ?_⟩
  exact h id call hcall hname hget hopen outcome (by rw [hstage]; rfl)

/-- A call that gets a key puts no created secret into the cache, and takes no name out of it. -/
theorem replacesCached_of_get (hfits : stage.Fits settings name .get) :
    stage.work?.any Work.replacesCached = false := by
  cases stage with
  | work w =>
    obtain ⟨-, hfits⟩ := hfits
    cases w <;> first
      | rfl
      | cases hfits
  | _ => rfl

/-- Whoever gets a key that lasts is decided on its secret, or on a sealed key if its record cannot
be read. -/
theorem Lasts.gives (h : s.Lasts name secret record)
    (hseals : SealsAs s.settings opens kind secret record)
    (hnext : Next s id name .get reply stage change stage')
    (hfits : stage.Fits s.settings name .get)
    (hrelies : ∀ w, stage = .work w → w.Relies opens kind s name)
    (hopens : reply.Opens opens stage) (hfaultless : stage'.isFailure = false)
    (hopen : stage.verdict? = none) {outcome : Outcome}
    (hverdict : stage'.verdict? = some outcome) :
    Gives s.settings opens secret record outcome := by
  cases hnext with
  | refused herror => cases (KeyName.validate_eq_ok_iff.2 h.valid).symm.trans herror
  | hit hheld =>
    obtain rfl := Option.some.inj hverdict
    rw [h.cached _ hheld]
    exact .inl rfl
  | granted => cases (verdict?_of_first hfits.2.2).symm.trans hverdict
  | readNothing hmissing => cases (hmissing h.reaches).symm.trans h.record
  | readFailed => cases hfaultless
  | readMalformed hrecord hkey hfault =>
    -- without a master key, every record can be read
    obtain rfl := Option.some.inj (h.record.symm.trans hrecord)
    rw [SealsAs, hkey] at hseals
    have hwhole : secretOf s.settings opens record = some secret := by
      rw [hseals]
      exact secretOf_plainRecord hkey secret
    rw [secretOf, hkey, hfault] at hwhole
    cases hwhole
  | readUnsealable hrecord hkey herror =>
    obtain rfl := Option.some.inj (h.record.symm.trans hrecord)
    obtain rfl := Option.some.inj hverdict
    exact .inr ⟨by rw [secretOf, hkey, herror]; rfl, rfl⟩
  | @notOpened c fault hfault =>
    -- the ciphertext is the one that was made of the secret
    obtain ⟨hkey, bytes, hrecord, hc⟩ := hrelies (.decrypt c) rfl
    obtain rfl := Option.some.inj (h.record.symm.trans hrecord)
    obtain ⟨key, hkey⟩ := Option.ne_none_iff_exists'.1 hkey
    rw [SealsAs, hkey] at hseals
    obtain ⟨d, -, hd, hmade⟩ := hseals
    rw [hmade] at hc
    obtain ⟨-, rfl⟩ := eq_of_ofRecord_readable _ hc
    have hopened := hopens d rfl secret hd
    rw [hfault] at hopened
    cases hopened
  | @cachedRead x =>
    obtain ⟨bytes, hrecord, hread⟩ := hrelies (.cacheRead x) rfl
    obtain rfl := Option.some.inj (h.record.symm.trans hrecord)
    obtain rfl := Option.some.inj hverdict
    refine .inl ?_
    cases hheld : s.cached? name with
    | none => rw [Option.getD_none, hseals.eq_of_readsAs hread]
    | some y => rw [Option.getD_some, h.cached y hheld]
  | left | finished => cases hopen
  -- no call that gets a key comes here
  | taken | notSealed | directoryFailed | fileExists | fileFailed | synced | rolledBack
  | notRolledBack | inserted | insertTaken | cachedCreated | purged =>
    simp [Stage.Fits, Work.Fits] at hfits
  | _ => cases hverdict

/-- Whoever gets a key that lasts goes on being decided as it should. -/
theorem Given.advances (h : Given (Gives t.settings opens secret record) s t name)
    (hlasts : t.Lasts name secret record) (hseals : SealsAs t.settings opens kind secret record)
    (hreliable : t.Reliable opens kind name) (hsound : t.Sound)
    (hcall : t.calls.find? id = some call)
    (hanswers : call.name = name → reply.Opens opens call.stage ∧ stage.isFailure = false)
    {u : Store} (hadv : t.Advances u id call reply change stage) :
    Given (Gives t.settings opens secret record) s u name := by
  refine hadv.forall_calls (fun hname hget hopen outcome hverdict => ?_)
    fun j other _ hother => h j other hother
  have hfits := hsound.fits id call hcall
  have hnext := hadv.next
  obtain ⟨n, operation, before⟩ := call
  dsimp only at hname hget hfits hnext hanswers hverdict
  subst hname hget
  cases hbefore : before.verdict? with
  | none =>
    obtain ⟨hopens, hfaultless⟩ := hanswers rfl
    refine hlasts.gives hseals hnext hfits (fun w hw => ?_) hopens hfaultless hbefore hverdict
    exact hreliable.relies id w ⟨_, hcall, rfl, hw⟩
  | some decided =>
    -- the call was decided before, on the same outcome
    have hsame := hnext.verdict?_eq (replacesCached_of_get hfits) hbefore
    obtain rfl := Option.some.inj (hsame.symm.trans hverdict)
    exact h id _ hcall rfl rfl hopen decided hbefore

/-- Whoever gets a key that lasts, and is decided in a run in which the record stays, is so on its
secret, or on a sealed key if its record cannot be read. -/
theorem Lawful.gives
    (hlawful : Lawful (fun s i => Harmless opens kind name s i ∧ KeepsRecord name s i ∧
      Answers opens name s i) s incidents)
    (hstays : ∀ i ∈ incidents, i ≠ .restart) (hsound : s.Sound)
    (hreliable : s.Reliable opens kind name) (hseals : SealsAs s.settings opens kind secret record)
    (h : s.Lasts name secret record) :
    Given (Gives s.settings opens secret record) s (s.befallAll incidents) name := by
  have hrun := hlawful.and_forall hstays
  refine (hrun.keeps (P := fun u => u.settings = s.settings ∧ u.Reliable opens kind name ∧
    u.Lasts name secret record ∧ Given (Gives s.settings opens secret record) s u name)
    ?_ ?_ ?_ ?_ ?_ hsound ⟨rfl, hreliable, h, ?_⟩).2.2.2.2
  case refine_1 =>
    rintro u id n operation - ⟨hsame, hu, hlasts, hgiven⟩ - -
    refine ⟨hsame, hu.newCall id n operation,
      hlasts.unharmed (unharmed_call u id n operation name), ?_⟩
    exact forall_calls_call (fun _ _ _ _ hverdict => by cases hverdict) hgiven
  case refine_2 =>
    rintro u id call reply change stage hsound ⟨hsame, hu, hlasts, hgiven⟩ hcall
      ⟨⟨hharmless, hkeeps, hanswers⟩, -⟩ hadv
    have hseals' : SealsAs u.settings opens kind secret record := by rwa [hsame]
    refine ⟨hadv.settings.trans hsame, hu.step hsound hcall hharmless hadv,
      hlasts.step hseals' hu hsound hcall hkeeps hadv, ?_⟩
    rw [← hsame] at hgiven ⊢
    refine hgiven.advances hlasts hseals' hu hsound hcall (fun hname => ?_) hadv
    obtain ⟨hopens, hfaultless⟩ := hanswers call hcall hname
    refine ⟨hopens, hfaultless stage ?_⟩
    rw [stage?, hadv.calls, if_pos rfl]
    rfl
  case refine_3 =>
    rintro u v - ⟨hsame, hu, hlasts, hgiven⟩ hfades
    refine ⟨hfades.settings.trans hsame, hu.fades hfades,
      hlasts.unharmed (hfades.unharmed name), ?_⟩
    rw [Given, hfades.calls]
    exact hgiven
  case refine_4 =>
    rintro u id - ⟨hsame, hu, hlasts, hgiven⟩ -
    refine ⟨hsame, hu.abandon id, hlasts.unharmed (unharmed_abandon u id name), ?_⟩
    exact fun j other hother => hgiven j other (find?_of_abandon hother).2
  case refine_5 =>
    rintro u - - ⟨-, hmove⟩
    exact absurd rfl hmove
  case refine_6 =>
    intro id call hcall _ _ hopen outcome hverdict
    cases (hopen call hcall).symm.trans hverdict

end

end Keyring.Store
