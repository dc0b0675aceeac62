import Keyring.Proofs.Ciphertext.Prefix
import Keyring.Proofs.Secret.Parsing
import Keyring.Proofs.Store.Completion

/-!
# What a file tells up to the limit

A file is read up to a limit, one byte beyond the largest record of a ciphertext. So whether a
record is too large can be told from the part that is read. There is no such bound on the text of a
secret, which may have any number of blanks around it: a file that is longer than the limit may hold
a secret of which nothing, or not all, is read.

- `Ciphertext.ofRecord_take`: a record of a ciphertext is read the same up to the limit;
- `Secret.CutSafely`, `forall_ofRecord_take_iff`: when a text of a secret is;
- `FetchesFile`: what a call that gets a key has found out;
- `gets_part_read`: how it ends, and when it would end the same with the whole file.
-/

namespace Keyring

/-! ### Records that are cut -/

/-- Whether a record is a ciphertext is told by its beginning if it is too large. -/
theorem Ciphertext.ofRecord_take {limit : Nat} (hlimit : maxRecordSize < limit)
    (record : List UInt8) : ofRecord (record.take limit) = ofRecord record := by
  by_cases hlong : limit < record.length
  case neg => rw [List.take_of_length_le (Nat.not_lt.1 hlong)]
  case pos =>
    have hpart : maxRecordSize < (record.take limit).length := by
      rw [List.length_take, Nat.min_eq_left (Nat.le_of_lt hlong)]
      exact hlimit
    unfold ofRecord decode
    rw [if_pos hpart, if_pos (Nat.lt_trans hlimit hlong)]

/-- However a ciphertext is kept, it is read the same. -/
theorem Store.ofRecord_readable (backend : Store.Backend) (record : List UInt8) :
    Ciphertext.ofRecord (backend.readable record) = Ciphertext.ofRecord record := by
  cases backend with
  | files directory => exact Ciphertext.ofRecord_take (Nat.lt_succ_self _) record
  | memory => rfl

namespace Secret

variable {record : List UInt8} {text more : List Char} {s : Secret} {limit : Nat}

/-- A secret is read the same of the beginning of a record as of the whole: the beginning is all,
or it has the secret and only blanks are left, or neither has one. -/
inductive CutSafely (record : List UInt8) (limit : Nat) : Prop where
  | whole (h : record.length ≤ limit)
  | blanks {s : Secret} {more : List Char} (h : ofRecord (record.take limit) = .ok s)
    (hblank : ∀ c ∈ more, Text.isBlank c = true)
    (hmore : record.drop limit = Text.Utf8.encode more)
  | unread (hpart : ∀ s, ofRecord (record.take limit) ≠ .ok s)
    (hwhole : ∀ s, ofRecord record ≠ .ok s)

/-- The core of a text that spells a secret has two digits for each of its bytes. -/
theorem length_of_lower {core : List Char} (h : core.map Char.toLower = s.toHex.toList) :
    core.length = 2 * s.size := by
  rw [toHex, Text.Hex.ofBytes, String.toList_ofList] at h
  exact Text.Hex.length_of_lower h

theorem Spells.append (h : Spells text s) (hblank : ∀ c ∈ more, Text.isBlank c = true) :
    Spells (text ++ more) s := by
  obtain ⟨core, ⟨⟨before, after, hbefore, hafter, rfl⟩, hends⟩, hdigits⟩ := h
  refine ⟨core, ⟨⟨before, after ++ more, hbefore, fun c hc => ?_, ?_⟩, hends⟩, hdigits⟩
  · exact (List.mem_append.1 hc).elim (hafter c) (hblank c)
  · rw [List.append_assoc (before ++ core)]

/-- What may follow a text of a secret without a change is blank. -/
theorem Spells.isBlank_of_append (h : Spells text s) (hmore : Spells (text ++ more) s) :
    ∀ c ∈ more, Text.isBlank c = true := by
  obtain ⟨core, ⟨⟨before, after, hbefore, hafter, rfl⟩, hhead, hlast⟩, -, -, hlower⟩ := h
  obtain ⟨core', htrims, -, -, hlower'⟩ := hmore
  have hlength := length_of_lower hlower
  have hsize : 0 < s.size := List.length_pos_of_ne_nil s.ne_nil
  cases core with
  | nil =>
    rw [List.length_nil] at hlength
    omega
  | cons c core =>
    -- without the blanks in front, both texts begin with the digits of the secret
    have htrim := Text.trim_eq_iff.2 htrims
    rw [Text.trim, List.append_assoc, List.append_assoc, List.cons_append,
      Text.trimStart_append_cons hbefore (hhead c rfl), ← List.cons_append] at htrim
    obtain ⟨⟨blanks, hblanks, hsplit⟩, -⟩ :=
      Text.exists_trimEnd_append (c :: core ++ (after ++ more))
    rw [htrim] at hsplit
    have hsame : (c :: core).length = core'.length :=
      hlength.trans (length_of_lower hlower').symm
    obtain ⟨-, rfl⟩ := List.append_inj hsplit hsame
    intro d hd
    exact hblanks d (List.mem_append_right after hd)

/-- A record that is longer than its beginning goes on with text if both are text. -/
theorem exists_text_of_take (hpart : ofRecord (record.take limit) = .ok s) {s' : Secret}
    (hwhole : ofRecord record = .ok s') :
    ∃ text more, record.drop limit = Text.Utf8.encode more ∧ Spells text s ∧
      Spells (text ++ more) s' := by
  obtain ⟨text, htext, hspells⟩ := ofRecord_eq_ok_iff.1 hpart
  obtain ⟨all, hall, hspells'⟩ := ofRecord_eq_ok_iff.1 hwhole
  have hprefix : Text.Utf8.encode text <+: Text.Utf8.encode all := by
    rw [← htext, ← hall]
    exact List.take_prefix limit record
  obtain ⟨more, rfl⟩ := Text.Utf8.prefix_of_encode_prefix hprefix
  refine ⟨text, more, ?_, hspells, hspells'⟩
  have hsplit := List.take_append_drop limit record
  rw [htext] at hsplit
  rw [← hsplit, Text.Utf8.encode_append] at hall
  exact List.append_cancel_left hall

/-- A secret is read the same of the beginning of a record exactly if it is cut safely. -/
theorem forall_ofRecord_take_iff :
    (∀ s, ofRecord (record.take limit) = .ok s ↔ ofRecord record = .ok s) ↔
      CutSafely record limit := by
  constructor
  · intro hsame
    cases hpart : ofRecord (record.take limit) with
    | error fault =>
      -- a secret of the whole would be one of the part
      refine .unread (fun s => by simp [hpart]) fun s hwhole => ?_
      cases ((hsame s).2 hwhole).symm.trans hpart
    | ok s =>
      obtain ⟨text, more, hmore, hspells, hspells'⟩ :=
        exists_text_of_take hpart ((hsame s).1 hpart)
      exact .blanks hpart (hspells.isBlank_of_append hspells') hmore
  · intro hsafe s
    cases hsafe with
    | whole h => rw [List.take_of_length_le h]
    | @blanks s' more h hblank hmore =>
      obtain ⟨text, htext, hspells⟩ := ofRecord_eq_ok_iff.1 h
      have hwhole : ofRecord record = .ok s' := by
        refine ofRecord_eq_ok_iff.2 ⟨text ++ more, ?_, hspells.append hblank⟩
        rw [Text.Utf8.encode_append, ← htext, ← hmore, List.take_append_drop]
      rw [h, hwhole]
    | unread hpart hwhole => exact iff_of_false (hpart s) (hwhole s)

end Secret

namespace Store

/-- The secret of a record with a master key or without one. -/
def unsealed? (masterKey : Option String) (opens : Ciphertext → Option Secret)
    (record : List UInt8) : Option Secret :=
  match masterKey with
  | none => (Secret.ofRecord record).toOption
  | some _ => (Ciphertext.ofRecord record).toOption.bind opens

/-- How a call ends that gets a key whose record unseals to a secret or to none. -/
def Tells (unsealed : Option Secret) (outcome : Outcome) : Prop :=
  match unsealed with
  | some secret => outcome = .ok (.secret secret)
  | none => ∃ error, outcome = .error error

/-- So many spaces take as many bytes. -/
theorem encode_spaces (n : Nat) :
    Text.Utf8.encode (List.replicate n ' ') = List.replicate n 0x20 := by
  induction n with
  | zero => rfl
  | succ n ih =>
    rw [List.replicate_succ, List.replicate_succ, ← ih]
    rfl

theorem isBlank_of_mem_spaces {n : Nat} {c : Char} (hc : c ∈ List.replicate n ' ') :
    Text.isBlank c = true := by
  rw [(List.mem_replicate.1 hc).2]
  decide

/-- Blanks alone are no secret. -/
theorem ofRecord_spaces (n : Nat) :
    Secret.ofRecord (List.replicate n 0x20) = .error .empty := by
  have htrims : Text.Trims (List.replicate n ' ') [] :=
    ⟨⟨List.replicate n ' ', [], fun _ => isBlank_of_mem_spaces, by simp, by simp⟩, by simp, by simp⟩
  exact Secret.ofRecord_eq_error_iff.2 (.empty (encode_spaces n).symm htrims)

/-- A secret may stand behind any number of blanks. -/
theorem ofRecord_spaces_append (n : Nat) (s : Secret) :
    Secret.ofRecord (List.replicate n 0x20 ++ plainRecord s) = .ok s := by
  have hparse : Secret.parse (List.replicate n ' ' ++ s.toHex.toList ++ []) = .ok s :=
    Secret.parse_append_toHex_append (fun _ => isBlank_of_mem_spaces) (by simp) s
  rw [List.append_nil] at hparse
  rw [← encode_spaces, plainRecord, Text.Utf8.ofString, ← Text.Utf8.encode_append,
    Secret.ofRecord_encode, hparse]

/-- What a call that gets a key has found out at a stage, if nothing is cached at first and what is
read of the record unseals to a secret or to none. -/
def Stage.Fetching (masterKey : Option String) (opens : Ciphertext → Option Secret)
    (unsealed cached : Option Secret) : Stage → Prop
  | .start | .lookUp | .obtain .read | .request .read | .wait .read | .work .read => cached = none
  | .work (.decrypt c) => cached = none ∧ masterKey ≠ none ∧ unsealed = opens c
  | .work (.cacheRead secret) => cached = none ∧ unsealed = some secret
  | .leave outcome | .finished outcome => Tells unsealed outcome
  | _ => False

/-- A call is to get a key that is not cached, and the file of the key can be read. -/
structure FetchesFile (opens : Ciphertext → Option Secret) (s : Store) (id : Nat)
    (directory name : String) (content : List UInt8) (stage : Stage) : Prop where
  valid : KeyName.Valid name
  files : s.settings.backend = .files directory
  file : s.disk.read (path directory name) = .ok content
  found : s.calls.find? id = some ⟨name, .get, stage⟩
  fetching : stage.Fetching s.settings.masterKey opens
    (unsealed? s.settings.masterKey opens (content.take readLimit)) (s.cached? name)

section

variable {opens : Ciphertext → Option Secret} {s : Store} {id : Nat} {directory name : String}
  {content : List UInt8} {stage stage' : Stage} {reply : Reply} {unsealed cached : Option Secret}
  {masterKey : Option String} {change : Change} {settings : Settings}

theorem Stage.Fetching.fits (h : stage.Fetching masterKey opens unsealed cached)
    (hvalid : KeyName.Valid name) : stage.Fits settings name .get := by
  cases stage with
  | start | finished => trivial
  | lookUp => exact ⟨hvalid, rfl⟩
  | leave => exact hvalid
  | obtain w | request w | wait w => cases w <;> first
      | exact ⟨hvalid, rfl, trivial⟩
      | cases h
  | work w => cases w <;> first
      | exact ⟨hvalid, rfl⟩
      | cases h
  | _ => cases h

/-- What a call that gets a key does leaves the disk as it is. -/
theorem Stage.Fetching.changesDisk (h : stage.Fetching masterKey opens unsealed cached) (w : Work)
    (hw : stage = .work w) : w.changesDisk = false := by
  subst hw
  cases w <;> first
    | rfl
    | cases h

/-- A call that does not read its record leads on to what it is to find out. -/
theorem Next.fetching (hnext : Next s id name .get reply stage change stage')
    (h : stage.Fetching s.settings.masterKey opens unsealed (s.cached? name))
    (hvalid : KeyName.Valid name) (hfaithful : reply.Faithful s.settings opens stage)
    (hread : stage ≠ .work .read) :
    stage'.Fetching s.settings.masterKey opens unsealed
      (change.cachedAfter (s.cached? name)) := by
  cases hnext with
  | refused herror => cases (KeyName.validate_eq_ok_iff.2 hvalid).symm.trans herror
  | create _ hop | delete _ hop => cases hop
  | get => exact h
  | hit hheld => cases hheld.symm.trans h
  | miss hmiss => exact hmiss
  | @obtain w | @request w | @waiting w | @granted w => cases w <;> first
      | exact h
      | cases h
  | opened hdecrypted =>
    obtain ⟨hmiss, hkey, hopens⟩ := h
    have hfound := hfaithful.decrypts hkey _ rfl
    rw [hdecrypted] at hfound
    exact ⟨hmiss, hopens.trans hfound.symm⟩
  | notOpened hfault =>
    obtain ⟨-, hkey, hopens⟩ := h
    have hfound := hfaithful.decrypts hkey _ rfl
    rw [hfault] at hfound
    rw [hopens, ← hfound]
    exact ⟨_, rfl⟩
  | cachedRead =>
    obtain ⟨hmiss, hsecret⟩ := h
    rw [hmiss, hsecret]
    exact rfl
  | left | finished => exact h
  | readNothing | readFailed | readSecret | readMalformed | readCiphertext | readUnsealable =>
    exact absurd rfl hread
  -- no call that gets a key comes here
  | _ => cases h

/-- Reading a record changes nothing. -/
theorem Next.change_of_read {operation : Operation}
    (hnext : Next s id name operation reply (.work .read) change stage') : change = .nothing := by
  cases hnext <;> rfl

/-- Reading the file, the call finds what the part that is read unseals to. -/
theorem FetchesFile.perform_read (h : FetchesFile opens s id directory name content (.work .read))
    {limit : Nat} (hdevice : reply.device = .accept limit) :
    (s.perform id ⟨name, .get, .work .read⟩ reply).2.Fetching s.settings.masterKey opens
      (unsealed? s.settings.masterKey opens (content.take readLimit)) (s.cached? name) := by
  have hmiss : s.cached? name = none := h.fetching
  have hperform : s.perform id ⟨name, .get, .work .read⟩ reply =
      s.understand name (content.take readLimit) := by
    simp only [perform, doWork]
    unfold read
    simp only [h.files, hdevice, h.file]
  rw [hperform]
  unfold understand unsealed?
  cases hkey : s.settings.masterKey with
  | none =>
    cases hrecord : Secret.ofRecord (content.take readLimit) with
    | ok secret => exact ⟨hmiss, rfl⟩
    | error fault => exact ⟨_, rfl⟩
  | some key =>
    cases hrecord : Ciphertext.ofRecord (content.take readLimit) with
    | ok c => exact ⟨hmiss, by simp, rfl⟩
    | error error => exact ⟨_, rfl⟩

/-- Each step of the call leads on to what it is to find out. -/
theorem FetchesFile.step (h : FetchesFile opens s id directory name content stage)
    (hfaithful : reply.Faithful s.settings opens stage) :
    ∃ stage', FetchesFile opens (s.step id reply) id directory name content stage' := by
  obtain ⟨⟨change, hadv⟩, hdisk⟩ :=
    exists_advances_perform h.found (h.fetching.fits h.valid) reply
  have hcached := hadv.cached name
  rw [if_pos rfl] at hcached
  refine ⟨_, h.valid, by rw [hadv.settings, h.files], ?_, by rw [hadv.calls, if_pos rfl], ?_⟩
  · rw [hdisk, disk_perform fun w hw => h.fetching.changesDisk w hw, h.file]
  · rw [hadv.settings, hcached]
    -- only the reply to a read says something about the file
    by_cases hread : stage = .work .read
    case pos =>
      subst hread
      obtain ⟨limit, hdevice⟩ := hfaithful.accepts
      rw [hadv.next.change_of_read]
      exact h.perform_read hdevice
    case neg => exact hadv.next.fetching h.fetching h.valid hfaithful hread

variable {replies : Nat → Reply}

/-- In a run of its own, the call finds out what it is to. -/
theorem FetchesFile.run (h : FetchesFile opens s id directory name content .start)
    (hfaithful : ∀ i, ∀ stage ∈ (s.run (ownSteps id replies i)).stage? id,
      (replies i).Faithful s.settings opens stage) (count : Nat) :
    (s.run (ownSteps id replies count)).settings = s.settings ∧
      ∃ stage, FetchesFile opens (s.run (ownSteps id replies count)) id directory name content
        stage := by
  induction count with
  | zero => exact ⟨rfl, .start, h⟩
  | succ count ih =>
    obtain ⟨hsettings, stage, hfetches⟩ := ih
    have hanswer : (replies count).Faithful s.settings opens stage :=
      hfaithful count stage (by rw [stage?, hfetches.found]; rfl)
    rw [← hsettings] at hanswer
    rw [run_ownSteps_succ]
    obtain ⟨⟨change, hadv⟩, -⟩ :=
      exists_advances_perform hfetches.found (hfetches.fetching.fits hfetches.valid)
        (replies count)
    exact ⟨hadv.settings.trans hsettings, hfetches.step hanswer⟩

/-- A call that gets a key ends with what the part that is read of its file unseals to. -/
theorem Quiet.gets_file (hquiet : s.Quiet) (hfresh : s.calls.find? id = none)
    (hvalid : KeyName.Valid name) (hfiles : s.settings.backend = .files directory)
    (hfile : s.disk.read (path directory name) = .ok content) (hmiss : s.cached? name = none)
    (hfaithful : ∀ i, ∀ stage ∈ ((s.call id name .get).run (ownSteps id replies i)).stage? id,
      (replies i).Faithful s.settings opens stage) :
    ∃ count outcome,
      ((s.call id name .get).run (ownSteps id replies count)).outcome? id = some outcome ∧
        Tells (unsealed? s.settings.masterKey opens (content.take readLimit)) outcome := by
  have hstart : FetchesFile opens (s.call id name .get) id directory name content .start :=
    ⟨hvalid, hfiles, hfile, by simp [Store.call], hmiss⟩
  obtain ⟨count, outcome, houtcome⟩ :
      ∃ count outcome,
        ((s.call id name .get).run (ownSteps id replies count)).outcome? id = some outcome :=
    hquiet.ends hfresh (by decide) replies
  refine ⟨count, outcome, houtcome, ?_⟩
  obtain ⟨hsettings, stage, hend⟩ := hstart.run hfaithful count
  obtain ⟨call, hcall, hover⟩ := outcome?_eq_some_iff.1 houtcome
  obtain rfl := Option.some.inj (hend.found.symm.trans hcall)
  have hfetching := hend.fetching
  rw [hsettings] at hfetching
  dsimp only at hover
  subst hover
  exact hfetching

theorem Tells.eq_ok_iff {outcome : Outcome} (h : Tells unsealed outcome) (secret : Secret) :
    outcome = .ok (.secret secret) ↔ unsealed = some secret := by
  cases unsealed with
  | none =>
    obtain ⟨error, rfl⟩ := h
    simp
  | some found =>
    obtain rfl : outcome = .ok (.secret found) := h
    simp

/-- With a master key, a record that is read up to the limit unseals to the same secret. -/
theorem unsealed?_take_of_some (key : String) (content : List UInt8) :
    unsealed? (some key) opens (content.take readLimit) = unsealed? (some key) opens content := by
  have hlimit : Ciphertext.maxRecordSize < readLimit := Nat.lt_succ_self _
  rw [unsealed?, unsealed?, Ciphertext.ofRecord_take hlimit]

theorem unsealed?_none_eq_some_iff {record : List UInt8} {secret : Secret} :
    unsealed? none opens record = some secret ↔ Secret.ofRecord record = .ok secret := by
  rw [unsealed?]
  cases Secret.ofRecord record <;> simp [Except.toOption]

/-- **What a bounded read tells.** In a store of files whose calls are over, a call gets a key that
is not cached, on a device that reads the file of the key and with a key management system that
decides by the ciphertext alone what it decrypts. The call ends with the secret that the beginning
of the file unseals to, up to the limit, and fails if there is none. With a master key that is the
secret of the whole file, however long it is. Without one it is so exactly if the file is cut
safely: it is not longer than the limit, or nothing but blanks follows what is read, or there is no
secret either way. -/
theorem gets_part_read (hquiet : s.Quiet) (hfresh : s.calls.find? id = none)
    (hvalid : KeyName.Valid name) (hfiles : s.settings.backend = .files directory)
    (hfile : s.disk.read (path directory name) = .ok content) (hmiss : s.cached? name = none)
    (hfaithful : ∀ i, ∀ stage ∈ ((s.call id name .get).run (ownSteps id replies i)).stage? id,
      (replies i).Faithful s.settings opens stage) :
    ∃ count outcome,
      ((s.call id name .get).run (ownSteps id replies count)).outcome? id = some outcome ∧
        Tells (unsealed? s.settings.masterKey opens (content.take readLimit)) outcome ∧
        ((∀ secret, outcome = .ok (.secret secret) ↔
          unsealed? s.settings.masterKey opens content = some secret) ↔
            (s.settings.masterKey = none → Secret.CutSafely content readLimit)) := by
  obtain ⟨count, outcome, houtcome, htells⟩ :=
    hquiet.gets_file hfresh hvalid hfiles hfile hmiss hfaithful
  refine ⟨count, outcome, houtcome, htells, ?_⟩
  have hok := htells.eq_ok_iff
  -- the limit is chosen for records of ciphertexts
  cases hkey : s.settings.masterKey with
  | none =>
    rw [hkey] at hok
    simp only [hok, unsealed?_none_eq_some_iff, Secret.forall_ofRecord_take_iff, forall_const]
  | some key =>
    rw [hkey, unsealed?_take_of_some] at hok
    simp [hok]

end

namespace Sample

/-- A disk with the file of one key. -/
def diskWith (content : List UInt8) : Disk := disk.put ["keys", "a"] (.file 0o600 content)

theorem read_diskWith (content : List UInt8) :
    (diskWith content).read (path "keys" "a") = .ok content := rfl

/-- Without a master key, all answers are faithful with which the device accepts. -/
theorem reply_faithful (limit : Nat) (stage : Stage) :
    (reply limit).Faithful (settings (.files "keys") none) opens stage where
  accepts := ⟨limit, rfl⟩
  encrypts hkey := absurd rfl hkey
  decrypts hkey := absurd rfl hkey

/-- A key is got that has this file. -/
theorem gets_diskWith (content : List UInt8) :
    let s := new (settings (.files "keys") none) (diskWith content) 0
    ∃ count outcome,
      ((s.call 1 "a" .get).run (ownSteps 1 (fun _ => reply 0) count)).outcome? 1 = some outcome ∧
        Tells (unsealed? none opens (content.take readLimit)) outcome := by
  intro s
  have hfaithful : ∀ i, ∀ stage ∈
      ((s.call 1 "a" .get).run (ownSteps 1 (fun _ => reply 0) i)).stage? 1,
      (reply 0).Faithful s.settings opens stage := fun _ stage _ => reply_faithful 0 stage
  exact (quiet_new _ _ _).gets_file rfl (by decide) rfl (read_diskWith content) rfl hfaithful

/-- A key is not got if nothing but blanks is read of its file. -/
theorem refused_diskWith {content : List UInt8} {n : Nat}
    (h : content.take readLimit = List.replicate n 0x20) :
    let s := new (settings (.files "keys") none) (diskWith content) 0
    ∃ count error,
      ((s.call 1 "a" .get).run (ownSteps 1 (fun _ => reply 0) count)).outcome? 1 =
        some (.error error) := by
  obtain ⟨count, outcome, houtcome, htells⟩ := gets_diskWith content
  rw [h, unsealed?, ofRecord_spaces] at htells
  obtain ⟨error, rfl⟩ := htells
  exact ⟨count, error, houtcome⟩

end Sample

/-- A key is read whose file ends with a line break. -/
theorem gets_part_read_short :
    let content := plainRecord Sample.secret ++ [0x0a]
    let s := new (Sample.settings (.files "keys") none) (Sample.diskWith content) 0
    Secret.CutSafely content readLimit ∧ ∃ count,
      ((s.call 1 "a" .get).run (ownSteps 1 (fun _ => Sample.reply 0) count)).outcome? 1 =
        some (.ok (.secret Sample.secret)) := by
  intro content s
  have hvalid : KeyName.Valid "a" := by decide
  have hfaithful : ∀ i, ∀ stage ∈
      ((s.call 1 "a" .get).run (ownSteps 1 (fun _ => Sample.reply 0) i)).stage? 1,
      (Sample.reply 0).Faithful s.settings Sample.opens stage :=
    fun _ stage _ => Sample.reply_faithful 0 stage
  obtain ⟨count, outcome, houtcome, -, hwhole⟩ := gets_part_read (quiet_new _ _ _) rfl hvalid rfl
    (Sample.read_diskWith content) rfl hfaithful
  have hsafe : Secret.CutSafely content readLimit := .whole (by decide +kernel)
  have hsecret : unsealed? none Sample.opens content = some Sample.secret := by decide +kernel
  have hok := ((hwhole.2 fun _ => hsafe) Sample.secret).2 hsecret
  exact ⟨hsafe, count, hok ▸ houtcome⟩

/-- A file that holds a secret behind as many blanks as are read is refused. -/
theorem refused_beyond_limit :
    let content := List.replicate readLimit 0x20 ++ plainRecord Sample.secret
    let s := new (Sample.settings (.files "keys") none) (Sample.diskWith content) 0
    Secret.ofRecord content = .ok Sample.secret ∧ ∃ count error,
      ((s.call 1 "a" .get).run (ownSteps 1 (fun _ => Sample.reply 0) count)).outcome? 1 =
        some (.error error) := by
  exact ⟨ofRecord_spaces_append readLimit Sample.secret,
    Sample.refused_diskWith (List.take_left' List.length_replicate)⟩

end Store

end Keyring
