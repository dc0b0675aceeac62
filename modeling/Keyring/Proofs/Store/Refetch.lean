import Keyring.Proofs.Store.Usage

/-!
# A get that misses the cache

A call that gets a key whose name is not cached reads the backend, once, whatever the environment
answers. It asks for one decryption if what is read is a ciphertext record and there is a master
key, and for none otherwise.

- `Passes`: a run of a call comes to a stage;
- `fetched?`, `Fetches`: what is read, and whether it is to be decrypted;
- `Seeking`, `Seeking.step`: a call on its way to the read, which has changed nothing;
- `Stage.pastRead`, `decryptions_runFor_of_pastRead`: nothing is decrypted beyond what was read;
- `exists_read_of_miss`: the read, and what it costs.
-/

namespace Keyring.Store

/-- A run of a call comes to a stage when so many steps are left. -/
def Passes (answers : Nat → Stage → Reply) (id steps : Nat) (s : Store) (stage : Stage)
    (left : Nat) : Prop :=
  ∃ made, steps = made + left ∧
    (s.runFor (fun k => answers (k + left)) id made).stage? id = some stage

/-- What is read of the record of a name, if the device takes the call and there is one. -/
def fetched? (s : Store) (name : String) (device : Disk.Reply) : Option (List UInt8) :=
  match s.settings.backend with
  | .memory => s.table.find? name
  | .files directory =>
    match device with
    | .refuse _ => none
    | .accept _ => (s.disk.read (path directory name)).toOption.map (·.take readLimit)

/-- What is read is to be decrypted. -/
def Fetches (s : Store) (name : String) (device : Disk.Reply) : Prop :=
  s.settings.masterKey ≠ none ∧
    ∃ record c, s.fetched? name device = some record ∧ Ciphertext.ofRecord record = .ok c

section

variable {s t : Store} {id n steps : Nat} {name : String} {operation : Operation} {reply : Reply}
  {stage stage' : Stage} {change : Change} {call : Call} {answers : Nat → Stage → Reply}
  {device : Disk.Reply} {record : List UInt8}

/-! ### The read -/

theorem asksDecryption_understand :
    (s.understand name record).2.asksDecryption = true ↔
      s.settings.masterKey ≠ none ∧ ∃ c, Ciphertext.ofRecord record = .ok c := by
  unfold understand
  cases hkey : s.settings.masterKey with
  | none =>
    simp only [ne_eq, not_true_eq_false, false_and, iff_false]
    split <;> exact Bool.false_ne_true
  | some key =>
    simp only [ne_eq, reduceCtorEq, not_false_eq_true, true_and]
    split
    · next c hc => exact ⟨fun _ => ⟨c, hc⟩, fun _ => rfl⟩
    · next error herror =>
      refine ⟨fun h => absurd h Bool.false_ne_true, fun ⟨c, hc⟩ => ?_⟩
      cases herror.symm.trans hc

/-- What is read is understood. -/
theorem read_of_fetched? (h : s.fetched? name device = some record) :
    s.read name device = s.understand name record := by
  unfold fetched? at h
  unfold read
  cases hbackend : s.settings.backend with
  | memory =>
    rw [hbackend] at h
    dsimp only at h ⊢
    rw [h]
  | files directory =>
    rw [hbackend] at h
    cases device with
    | refuse fault => cases h
    | accept limit =>
      obtain ⟨content, hcontent, rfl⟩ := Option.map_eq_some_iff.1 h
      cases hread : s.disk.read (path directory name) with
      | error fault =>
        rw [hread] at hcontent
        cases hcontent
      | ok read =>
        rw [hread] at hcontent
        obtain rfl := Option.some.inj hcontent
        dsimp only
        rw [hread]

/-- Where nothing is read, the call is about to fail. -/
theorem read_of_fetched?_eq_none (h : s.fetched? name device = none) :
    ∃ error, (s.read name device).2 = .leave (.error error) := by
  unfold fetched? at h
  unfold read
  cases hbackend : s.settings.backend with
  | memory =>
    rw [hbackend] at h
    dsimp only at h ⊢
    rw [h]
    exact ⟨_, rfl⟩
  | files directory =>
    rw [hbackend] at h
    cases device with
    | refuse fault => exact ⟨_, rfl⟩
    | accept limit =>
      dsimp only
      split
      · next content hcontent =>
        dsimp only at h
        rw [hcontent] at h
        cases h
      · exact ⟨_, rfl⟩
      · exact ⟨_, rfl⟩

/-- A read leads to a decryption if what is read is to be decrypted. -/
theorem asksDecryption_read :
    (s.read name device).2.asksDecryption = true ↔ s.Fetches name device := by
  unfold Fetches
  cases hfetched : s.fetched? name device with
  | none =>
    obtain ⟨error, hstage⟩ := read_of_fetched?_eq_none hfetched
    rw [hstage]
    simp [Stage.asksDecryption]
  | some record =>
    rw [read_of_fetched? hfetched, asksDecryption_understand]
    simp

/-! ### After the read -/

/-- A stage of a call that has read the record of its name. -/
def Stage.pastRead : Stage → Bool
  | .work (.decrypt _) | .work (.cacheRead _) | .leave _ | .finished _ => true
  | _ => false

theorem Next.pastRead (h : Next s id name operation reply stage change stage')
    (hpast : stage.pastRead = true) :
    stage'.pastRead = true ∧ stage'.asksDecryption = false := by
  cases h with
  | opened | notOpened | cachedRead | left | finished => exact ⟨rfl, rfl⟩
  | _ => cases hpast

/-- A call that has read the record of its name asks for nothing more. -/
theorem decryptions_runFor_of_pastRead (hsound : s.Sound) (hcall : s.calls.find? id = some call)
    (hpast : call.stage.pastRead = true) :
    (s.runFor answers id steps).decryptions = s.decryptions := by
  induction steps generalizing s call with
  | zero => rfl
  | succ steps ih =>
    have hfound : s.stage? id = some call.stage := by rw [stage?, hcall]; rfl
    have hfits := hsound.fits id call hcall
    obtain ⟨⟨change, hadv⟩, -⟩ := exists_advances_perform hcall hfits (answers steps call.stage)
    obtain ⟨hpast', hasks⟩ := hadv.next.pastRead hpast
    have hcall' := hadv.calls id
    rw [if_pos rfl] at hcall'
    rw [runFor, hfound]
    refine (ih (hsound.step hcall _) hcall' hpast').trans ?_
    have hspends := (spends_perform id (answers steps call.stage) hfits).decryptions
    rw [hasks] at hspends
    rw [Store.step, hcall]
    exact hspends

/-! ### Before the read -/

/-- A stage of a call that is on its way to read the record of its name. -/
def Stage.seeks : Stage → Bool
  | .start | .lookUp | .obtain .read | .request .read | .wait .read => true
  | _ => false

/-- A call that gets a key is on its way to the record of its name, or about to read it, and has
changed nothing that the read depends on. -/
structure Seeking (s t : Store) (id : Nat) (name : String) (stage : Stage) : Prop where
  sound : t.Sound
  found : t.calls.find? id = some ⟨name, .get, stage⟩
  stage : stage.seeks = true ∨ stage = .work .read
  missing : t.cached? name = none
  settings : t.settings = s.settings
  disk : t.disk = s.disk
  record : t.record? name = s.record? name
  decryptions : t.decryptions = s.decryptions

/-- A call that has only been made is on its way. -/
theorem seeking_call (hsound : s.Sound) (hfresh : s.calls.find? id = none)
    (hmiss : s.cached? name = none) : s.Seeking (s.call id name .get) id name .start where
  sound := hsound.newCall hfresh name .get
  found := by simp [Store.call]
  stage := .inl rfl
  missing := hmiss
  settings := rfl
  disk := rfl
  record := rfl
  decryptions := rfl

/-- Each step of a call that seeks a record leads nearer to it, or leaves it on its way. -/
theorem Seeking.step (h : s.Seeking t id name stage) (hvalid : KeyName.Valid name)
    (hseeks : stage.seeks = true) (reply : Reply) :
    ∃ stage', s.Seeking (t.step id reply) id name stage' := by
  have hfits := h.sound.fits id _ h.found
  obtain ⟨⟨change, hadv⟩, hdisk⟩ := exists_advances_perform h.found hfits reply
  have hspends := spends_perform id reply hfits
  have hnothing (hchange : change = .nothing) {stage' : Stage}
      (hstage' : (t.perform id ⟨name, .get, stage⟩ reply).2 = stage')
      (hnext : (stage'.seeks = true ∨ stage' = .work .read) ∧ stage'.asksDecryption = false) :
      s.Seeking (t.step id reply) id name stage' := by
    have hcached := hadv.cached name
    have hrecord := hadv.record name
    have hcall := hadv.calls id
    simp only [hchange, hstage', Change.cachedAfter, Change.recordAfter, ite_self, if_true]
      at hcached hrecord hcall
    refine ⟨h.sound.step h.found reply, hcall, hnext.1, hcached.trans h.missing,
      hadv.settings.trans h.settings, hdisk.trans ((disk_perform ?_).trans h.disk),
      hrecord.trans h.record, ?_⟩
    · intro w hw
      obtain rfl : stage = .work w := hw
      cases hseeks
    · have hcount := hspends.decryptions
      rw [hstage', hnext.2] at hcount
      rw [Store.step, h.found]
      exact hcount.trans h.decryptions
  have hadvance := hadv.next
  generalize hstage' : (t.perform id ⟨name, .get, stage⟩ reply).2 = stage' at hadvance
  refine ⟨stage', ?_⟩
  cases hadvance with
  | refused herror => cases (KeyName.validate_eq_ok_iff.2 hvalid).symm.trans herror
  | hit hheld => cases h.missing.symm.trans hheld
  | get | miss => exact hnothing rfl hstage' ⟨.inl rfl, rfl⟩
  | create _ hop | delete _ hop => cases hop
  | @obtain w | @request w | @waiting w =>
    cases w with
    | read => exact hnothing rfl hstage' ⟨.inl rfl, rfl⟩
    | _ => cases hseeks
  | @granted w =>
    cases w with
    | read => exact hnothing rfl hstage' ⟨.inr rfl, rfl⟩
    | _ => cases hseeks
  | _ => cases hseeks

/-- What is read depends on what a call that seeks it has not changed. -/
theorem Seeking.fetched? (h : s.Seeking t id name stage) (device : Disk.Reply) :
    t.fetched? name device = s.fetched? name device := by
  have hrecord := h.record
  unfold Store.record? at hrecord
  unfold Store.fetched?
  rw [h.settings] at hrecord ⊢
  rw [h.disk] at hrecord ⊢
  cases hbackend : s.settings.backend with
  | memory =>
    rw [hbackend] at hrecord
    exact hrecord
  | files directory => rfl

/-- A call that seeks a record and comes to its end has read it. -/
theorem Seeking.exists_read (h : s.Seeking t id name stage) (hvalid : KeyName.Valid name)
    (hended : (t.runFor answers id steps).outcome? id ≠ none) :
    ∃ left, Passes answers id steps t (.work .read) (left + 1) ∧
      (s.Fetches name (answers left (.work .read)).device →
        (t.runFor answers id steps).decryptions = s.decryptions + 1) ∧
      (¬s.Fetches name (answers left (.work .read)).device →
        (t.runFor answers id steps).decryptions = s.decryptions) := by
  induction steps generalizing t stage with
  | zero =>
    -- the call is not over yet
    refine absurd ?_ hended
    rw [runFor, outcome?, stage?, h.found]
    rcases h.stage with hseeks | hstage
    · simp only [Option.map_some]
      split
      · next outcome hover =>
        rw [Option.some.inj hover] at hseeks
        cases hseeks
      · rfl
    · rw [hstage]
      rfl
  | succ steps ih =>
    have hfound : t.stage? id = some stage := by rw [stage?, h.found]; rfl
    rw [runFor, hfound] at hended
    rcases h.stage with hseeks | rfl
    · obtain ⟨stage', hstep⟩ := h.step hvalid hseeks (answers steps stage)
      obtain ⟨left, ⟨made, hsteps, hpasses⟩, hcosts⟩ := ih hstep hended
      refine ⟨left, ⟨made + 1, by omega, ?_⟩, ?_⟩
      · rw [runFor, hfound]
        show ((t.step id (answers (made + (left + 1)) stage)).runFor _ id made).stage? id = _
        rw [← hsteps]
        exact hpasses
      · rw [runFor, hfound]
        exact hcosts
    · -- the call is about to read the record
      have hfits := h.sound.fits id _ h.found
      have hspends := (spends_perform id (answers steps (.work .read)) hfits).decryptions
      obtain ⟨⟨change, hadv⟩, -⟩ := exists_advances_perform h.found hfits
        (answers steps (.work .read))
      have hcall := hadv.calls id
      rw [if_pos rfl] at hcall
      have hperform : (t.perform id ⟨name, .get, .work .read⟩ (answers steps (.work .read))) =
          t.read name (answers steps (.work .read)).device := rfl
      have hpast : (t.read name (answers steps (.work .read)).device).2.pastRead = true := by
        have hnext := hadv.next
        rw [hperform] at hnext
        generalize (t.read name (answers steps (.work .read)).device).2 = stage' at hnext
        cases hnext <;> rfl
      have hlast : ((t.step id (answers steps (.work .read))).runFor answers id steps).decryptions =
          (t.step id (answers steps (.work .read))).decryptions :=
        decryptions_runFor_of_pastRead (h.sound.step h.found _) hcall
          (by rw [hperform]; exact hpast)
      have hfetches : t.Fetches name (answers steps (.work .read)).device ↔
          s.Fetches name (answers steps (.work .read)).device := by
        rw [Fetches, Fetches, h.fetched?, h.settings]
      have hread : (t.step id (answers steps (.work .read))).decryptions = t.decryptions +
          if (t.read name (answers steps (.work .read)).device).2.asksDecryption then 1 else 0 := by
        rw [hperform] at hspends
        rw [Store.step, h.found]
        exact hspends
      refine ⟨steps, ⟨0, by omega, ?_⟩, fun hsealed => ?_, fun hsealed => ?_⟩
      · rw [runFor]
        exact hfound
      · rw [runFor, hfound, hlast, hread, if_pos (asksDecryption_read.2 (hfetches.2 hsealed)),
          h.decryptions]
      · rw [runFor, hfound, hlast, hread, if_neg fun hasks => hsealed (hfetches.1
          (asksDecryption_read.1 hasks)), h.decryptions]
        rfl

/-- **A get that misses the cache reads the backend**, and asks for one decryption if what it reads
is to be decrypted, and for none otherwise. -/
theorem exists_read_of_miss (hsound : s.Sound) (hfresh : s.calls.find? n = none)
    (hvalid : KeyName.Valid name) (hmiss : s.cached? name = none)
    (hended : ((s.call n name .get).runFor answers n steps).outcome? n ≠ none) :
    ∃ left, Passes answers n steps (s.call n name .get) (.work .read) (left + 1) ∧
      (s.Fetches name (answers left (.work .read)).device →
        ((s.call n name .get).runFor answers n steps).decryptions = s.decryptions + 1) ∧
      (¬s.Fetches name (answers left (.work .read)).device →
        ((s.call n name .get).runFor answers n steps).decryptions = s.decryptions) :=
  (seeking_call hsound hfresh hmiss).exists_read hvalid hended

end

end Keyring.Store
