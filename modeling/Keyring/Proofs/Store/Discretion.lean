import Keyring.Proofs.Store.Abreast

/-!
# Secrets are not shown

Whatever can be seen of two key stores that run side by side, without looking at the bytes of a
secret, is the same at every moment, and the same is noted of them in passing.

It is not enough that the key management system never fails because of the bytes of a secret. If
for some secrets it names no master key, their records are stored and never read again, and which
secrets these are can be seen.

- `View`, `Store.view`: what can be seen of a store;
- `Twins.view_eq`: it does not depend on the bytes of secrets;
- `secrets_not_shown`: nothing that can be seen of two stores differs;
- `secrets_shown_namelessKey`: it may differ if ciphertexts cannot be read alike.
-/

namespace Keyring

/-- The printed forms of a secret: the one for readers and the one for debugging. -/
def Secret.shown (x : Secret) : String × String := (x.display, x.debug)

/-- What is shown of how a call ended: the error as it is, or the printed forms of the secret. -/
def Outcome.shown : Outcome → Except Error (Option (String × String))
  | .error error => .error error
  | .ok .done => .ok none
  | .ok (.secret x) => .ok (some x.shown)

/-- What is shown of what a call is to do: the word for it and the printed forms of the secret. -/
def Operation.shown : Operation → String × Option (String × String)
  | .create x => ("create", some x.shown)
  | .get => ("get", none)
  | .delete => ("delete", none)

namespace Store

/-- What can be seen of a store without looking at the bytes of a secret, but for what it notes in
passing. -/
structure View where
  /-- The names and operations of the calls. -/
  calls : Nat → Option (String × (String × Option (String × String)))
  /-- How calls ended. -/
  outcomes : Nat → Option (Except Error (Option (String × String)))
  /-- The secrets in the cache. -/
  cached : String → Option (String × String)
  /-- The error log. -/
  log : List LogEvent
  /-- How often the key management system was asked to encrypt. -/
  encryptions : Nat
  /-- How often the key management system was asked to decrypt. -/
  decryptions : Nat

/-- What can be seen of a store. -/
def view (s : Store) : View where
  calls id := (s.calls.find? id).map fun call => (call.name, call.operation.shown)
  outcomes id := (s.outcome? id).map Outcome.shown
  cached name := (s.cached? name).map Secret.shown
  log := s.log
  encryptions := s.encryptions
  decryptions := s.decryptions

section

variable {settings : Settings} {kin : Ciphertext → Ciphertext → Prop}
  {words : List UInt8 → Ciphertext.Fault → String} {w : Ciphertext.Wording} {s t : Store}
  {disk : Disk} {now : Nat} {k : KeyService} {p q : Side k}

/-! ### What can be seen -/

theorem shown_eq {x y : Secret} (h : x.Alike y) : x.shown = y.shown := by
  rw [Secret.shown, Secret.shown, h.display_eq, h.debug_eq]

theorem Outcome.shown_eq {outcome outcome' : Outcome} (h : outcome.Alike outcome') :
    outcome.shown = outcome'.shown := by
  cases h with
  | error fault => rfl
  | ok hanswer =>
    cases hanswer with
    | done => rfl
    | secret hxy => exact congrArg (Except.ok ∘ some) (Store.shown_eq hxy)

theorem Operation.shown_eq {operation operation' : Operation} (h : operation.Alike operation') :
    operation.shown = operation'.shown := by
  cases h with
  | create hxy => exact congrArg (fun shown => ("create", some shown)) (Store.shown_eq hxy)
  | get | delete => rfl

theorem Twins.view_eq (h : Twins settings kin words s t) : s.view = t.view := by
  have hcalls (id : Nat) : s.view.calls id = t.view.calls id := by
    have hid := h.calls id
    dsimp only [view]
    generalize s.calls.find? id = found at *
    generalize t.calls.find? id = found' at *
    cases hid with
    | none => rfl
    | some hcall =>
      rw [Option.map_some, Option.map_some, hcall.name, Operation.shown_eq hcall.operation]
  have houtcomes (id : Nat) : s.view.outcomes id = t.view.outcomes id := by
    have hid := h.calls id
    dsimp only [view]
    unfold Store.outcome? Store.stage?
    generalize s.calls.find? id = found at *
    generalize t.calls.find? id = found' at *
    cases hid with
    | none => rfl
    | @some call call' hcall =>
      have hstage := hcall.stage
      simp only [Option.map_some]
      generalize call.stage = stage at *
      generalize call'.stage = stage' at *
      cases hstage with
      | finished houtcome => exact congrArg some (Outcome.shown_eq houtcome)
      | _ => rfl
  have hcached (name : String) : s.view.cached name = t.view.cached name := by
    have hname := h.cache.entries name
    dsimp only [view, Store.cached?, Cache.find?]
    generalize s.cache.cache.entries.find? name = entry at *
    generalize t.cache.cache.entries.find? name = entry' at *
    cases hname with
    | none => rfl
    | some hentry => exact congrArg some (shown_eq hentry.secret)
  have hview := h.log
  simp only [view] at hcalls houtcomes hcached ⊢
  rw [funext hcalls, funext houtcomes, funext hcached, h.log, h.encryptions, h.decryptions]

/-- If no key management system is asked, it hides everything. -/
theorem covered_of_no_key (k : KeyService) (hkey : settings.masterKey = none) :
    Covered k settings Eq (fun _ _ => True) words where
  refl _ := rfl
  start := trivial
  next _ _ := trivial
  hides _ hsome := by cases hkey.symm.trans hsome
  parts heq backend n n' _ hsame := by
    subst heq
    obtain rfl := hsame rfl
    generalize Ciphertext.readNoting words _ = result
    cases result with
    | ok c => exact .ok rfl
    | error noted => exact .error noted

/-- Master keys in memory have what every key management system has that is uniform. -/
theorem of_masterKeys {P : KeyService → Prop} (hservice : ∀ m : MasterKeys, P m.service)
    (h : settings.masterKey = none ∨ (∃ m : MasterKeys, k = m.service) ∨ P k) :
    settings.masterKey = none ∨ P k := by
  obtain hkey | ⟨m, rfl⟩ | hk := h
  · exact .inl hkey
  · exact .inr (hservice m)
  · exact .inr hk

/-- Under a discreet key management system the records of ciphertexts are read alike. -/
theorem exists_covered_of_discreet
    (h : settings.masterKey = none ∨ (∃ m : MasterKeys, k = m.service) ∨ k.Discreet) :
    ∃ kin twins, Covered k settings kin twins Ciphertext.silent := by
  obtain hkey | ⟨kin, twins, hhides, hreadable⟩ := of_masterKeys (fun m => m.uniform.discreet) h
  · exact ⟨_, _, covered_of_no_key k hkey⟩
  · exact ⟨kin, twins, hhides.toRelates, fun _ _ => hhides,
      fun hkin => partsAlike_of_readable hkin (hreadable hkin)⟩

/-- Under a uniform one the same is noted of them. -/
theorem exists_covered_of_uniform (hw : w.Positional)
    (h : settings.masterKey = none ∨ (∃ m : MasterKeys, k = m.service) ∨ k.Uniform) :
    ∃ kin twins, Covered k settings kin twins (Ciphertext.Fault.text w) := by
  obtain hkey | ⟨kin, twins, hhides, halike⟩ := of_masterKeys (fun m => m.uniform) h
  · exact ⟨_, _, covered_of_no_key k hkey⟩
  · exact ⟨kin, twins, hhides.toRelates, fun _ _ => hhides,
      fun hkin => partsAlike_of_alike hw hkin (halike hkin)⟩

/-- **Secrets are not shown.** Two stores that were set up in the same way, and of which the same
calls were made with secrets of the same sizes, look the same at every moment: the calls end in the
same way and with the same errors, the same failures are logged in the same words, the key
management system is asked as often, and the printed forms of all secrets are the same. There is no
master key, or master keys in memory are enabled and disabled in any way, or some key management
system fails or not whatever the bytes of the secrets are, gives back secrets of the sizes that it
was given, and gives ciphertexts that can be read for all secrets of a size or for none.

The same is noted in passing, too, but perhaps for the cause for which a part of a record cannot be
read. The cause is noted in the same words if what is encrypted names the same key and has the same
size for all secrets of a size, as with master keys in memory, and the words for a record that
breaks off depend on where it does. What is noted while a store is opened is not looked at. -/
theorem secrets_not_shown
    (hkms : settings.masterKey = none ∨ (∃ m : MasterKeys, k = m.service) ∨ k.Discreet)
    (h : SideBySide k settings disk now w p q) :
    p.store.view = q.store.view ∧
      p.notices.map Notice.bare = q.notices.map Notice.bare ∧
      (settings.masterKey = none ∨ (∃ m : MasterKeys, k = m.service) ∨ k.Uniform →
        w.Positional → p.notices = q.notices) := by
  refine ⟨?view, ?bare, fun huniform hw => ?notices⟩
  case view =>
    obtain ⟨kin, twins, hcovered⟩ := exists_covered_of_discreet hkms
    exact (h.abreast hcovered).stores.view_eq
  case bare =>
    obtain ⟨kin, twins, hcovered⟩ := exists_covered_of_discreet hkms
    exact h.notices_eq hcovered fun s i => i.map_bare_notices _ s
  case notices =>
    obtain ⟨kin, twins, hcovered⟩ := exists_covered_of_uniform hw huniform
    have hsame := h.notices_eq (f := id) hcovered fun s i => List.map_id _
    rwa [List.map_id, List.map_id] at hsame

end

namespace Sample

/-- A secret of as many bytes as the other one. -/
def alikeSecret : Secret := ⟨[0x01, 0x02], by decide, by decide⟩

/-- The libraries tell where a record breaks off. -/
def wording : Ciphertext.Wording where
  json record := "EOF while parsing a value at line 1 column " ++ toString record.length
  base64 _ := "Invalid padding"

theorem positional_wording : wording.Positional := by
  intro c d h n hn
  have hlength : (c.toRecord.take n).length = (d.toRecord.take n).length := by
    rw [List.length_take, List.length_take, h.length_toRecord]
  exact congrArg (fun n => "EOF while parsing a value at line 1 column " ++ toString n) hlength

variable (encrypt : String → Secret → Except KmsFault Ciphertext)
  (decrypt : Ciphertext → Except KmsFault Secret) (limit : Nat)

/-- Two functions answer in place of a key management system of which one key is used, and a write
stores so many bytes and one more. -/
def served (x : Secret) : Reply :=
  { reply limit with encrypted := encrypt "k" x, decrypted := (encrypt "k" x).bind decrypt }

/-- The functions give the same as the reply, if it is asked for anything at a stage. -/
def Answers (settings : Settings) (reply : Reply) : Stage → Bool
  | .encrypt x => reply.encrypted = encrypt (settings.masterKey.getD "") x
  | .work (.decrypt c) => reply.decrypted = decrypt c
  | _ => true

/-- The functions answer two calls at a stage, and as much of both records is left to be written. -/
def InStep (x y : Secret) (id : Nat) (s t : Store) : Prop :=
  (∀ stage ∈ s.stage? id,
    Answers encrypt decrypt s.settings (served encrypt decrypt limit x) stage) ∧
  (∀ stage ∈ t.stage? id,
    Answers encrypt decrypt t.settings (served encrypt decrypt limit y) stage) ∧
  ∀ stage ∈ s.stage? id, ∀ stage' ∈ t.stage? id, ∀ left ∈ stage.unwritten?,
    ∀ left' ∈ stage'.unwritten?, (limit + 1 < left ↔ limit + 1 < left')

instance (x y : Secret) (id : Nat) (s t : Store) :
    Decidable (InStep encrypt decrypt limit x y id s t) :=
  inferInstanceAs (Decidable (_ ∧ _ ∧ _))

variable {encrypt decrypt limit} {k : KeyService} {settings : Settings} {disk : Disk}
  {now id : Nat} {w : Ciphertext.Wording} {p q : Side k} {reply : Reply} {x y : Secret}

/-- Two functions are what a key management system may answer in a state, which they do not
change. -/
structure Serves (k : KeyService) (a : k.State)
    (encrypt : String → Secret → Except KmsFault Ciphertext)
    (decrypt : Ciphertext → Except KmsFault Secret) : Prop where
  encrypts : ∀ key x, k.encrypts a key x (encrypt key x) a
  decrypts : ∀ c, k.decrypts a c (decrypt c) a

theorem Serves.answered {a : k.State} (h : Serves k a encrypt decrypt) {s : Store}
    (hanswers : ∀ stage ∈ s.stage? id, Answers encrypt decrypt s.settings reply stage) :
    Incident.Answered k s a a (.move (.step id reply)) := by
  unfold Incident.Answered
  dsimp only
  cases hstage : s.stage? id with
  | none => rfl
  | some stage =>
    have hanswer := hanswers stage hstage
    cases stage with
    | encrypt x =>
      have hreply : reply.encrypted = encrypt _ x := of_decide_eq_true hanswer
      change k.encrypts a _ x reply.encrypted a
      rw [hreply]
      exact h.encrypts _ x
    | work work =>
      cases work with
      | decrypt c =>
        have hreply : reply.decrypted = decrypt c := of_decide_eq_true hanswer
        change k.decrypts a c reply.decrypted a
        rw [hreply]
        exact h.decrypts c
      | _ => rfl
    | _ => rfl

/-- So many steps of a call, of which each gets the same reply. -/
def stepping (w : Ciphertext.Wording) (id : Nat) (reply : Reply) (p : Side k) : Nat → Side k
  | 0 => p
  | n + 1 => (stepping w id reply p n).befall w (.move (.step id reply)) p.service

theorem service_stepping (p : Side k) (count : Nat) :
    (stepping w id reply p count).service = p.service := by
  cases count <;> rfl

/-- Two stores make steps of a call side by side. -/
theorem sideBySide_stepping (h : SideBySide k settings disk now w p q)
    (hleft : Serves k p.service encrypt decrypt) (hright : Serves k q.service encrypt decrypt)
    {count : Nat}
    (hsteps : ∀ n < count, InStep encrypt decrypt limit x y id
      (stepping w id (served encrypt decrypt limit x) p n).store
      (stepping w id (served encrypt decrypt limit y) q n).store) :
    SideBySide k settings disk now w (stepping w id (served encrypt decrypt limit x) p count)
      (stepping w id (served encrypt decrypt limit y) q count) := by
  induction count with
  | zero => exact h
  | succ n ih =>
    obtain ⟨hp, hq, hsame⟩ := hsteps n (Nat.lt_succ_self n)
    refine (ih fun m hm => hsteps m (Nat.lt_succ_of_lt hm)).incident (.step id ?same) trivial
      ?left ?right
    case same =>
      intro stage hstage stage' hstage'
      exact .accept fun left hleft left' hleft' =>
        ⟨hsame stage hstage stage' hstage' left hleft left' hleft', fun _ => rfl⟩
    case left => rw [service_stepping]; exact hleft.answered hp
    case right => rw [service_stepping]; exact hright.answered hq

/-- A disk with an empty directory. -/
def emptyDisk : Disk := (filesWith none).disk

/-- A call is made. -/
def calling (w : Ciphertext.Wording) (id : Nat) (operation : Operation) (p : Side k) : Side k :=
  p.befall w (.move (.call id "a" operation)) p.service

/-- A secret leaves the cache. -/
def evicting (w : Ciphertext.Wording) (p : Side k) : Side k :=
  p.befall w (.move (.evict "a")) p.service

/-- A master key in memory. -/
def keys : MasterKeys := MasterKeys.empty.withKey "k" (.ofNat 1)

/-- A secret is encrypted under the same master key, which is disabled. -/
def disabledEncrypt (name : String) (x : Secret) : Except KmsFault Ciphertext :=
  (keys.setEnabled "k" false).encrypt (.ofNat 0) name x

/-- A ciphertext is decrypted with it. -/
def disabledDecrypt (c : Ciphertext) : Except KmsFault Secret :=
  (keys.setEnabled "k" false).decrypt c

theorem serves_disabled :
    Serves keys.service (keys.setEnabled "k" false) disabledEncrypt disabledDecrypt where
  encrypts _ _ := ⟨⟨.ofNat 0, rfl⟩, rfl⟩
  decrypts _ := ⟨rfl, rfl⟩

/-- The settings of a store of files whose entries expire after a second. -/
def expiring : Settings := ⟨.files "keys", Time.second, 0, some "k", .own⟩

/-- The master key of a store is disabled, and a call to create a secret begins. -/
def beginning (x : Secret) : Side keys.service :=
  calling wording 1 (.create x) ((Side.new keys.service expiring emptyDisk 0).serve ("k", false))

/-- The call has failed. -/
def unsealed (x : Secret) : Side keys.service :=
  stepping wording 1 (served disabledEncrypt disabledDecrypt 100 x) (beginning x) 4

theorem sideBySide_unsealed :
    SideBySide keys.service expiring emptyDisk 0 wording (unsealed secret)
      (unsealed alikeSecret) := by
  have hsize : secret.Alike alikeSecret := rfl
  have hbegin : SideBySide keys.service expiring emptyDisk 0 wording (beginning secret)
      (beginning alikeSecret) :=
    (SideBySide.start.service _).incident (.call 1 "a" (.create hsize)) rfl rfl rfl
  exact sideBySide_stepping hbegin serves_disabled serves_disabled (by decide +kernel)

end Sample

/-- Two secrets of two bytes that cannot be encrypted leave the same failure and the same line, and
the same is noted. -/
theorem secrets_not_shown_keyDisabled :
    let p := Sample.unsealed Sample.secret
    let q := Sample.unsealed Sample.alikeSecret
    p.store.outcome? 1 = some (.error (.internal "cannot encrypt key")) ∧
      p.store.log = [⟨.own, .encrypt, "a", "master key 'k' is disabled"⟩] ∧
      p.notices = [.sweepStarted .created Time.second Time.second] ∧
      p.store.view = q.store.view ∧ p.notices = q.notices := by
  intro p q
  obtain ⟨hview, -, hnotices⟩ :=
    secrets_not_shown (.inr (.inl ⟨Sample.keys, rfl⟩)) Sample.sideBySide_unsealed
  exact ⟨by decide +kernel, by decide +kernel, by decide +kernel, hview,
    hnotices (.inr (.inl ⟨Sample.keys, rfl⟩)) Sample.positional_wording⟩

namespace Sample

section

variable (w : Ciphertext.Wording) (settings : Settings)
  (encrypt : String → Secret → Except KmsFault Ciphertext)
  (decrypt : Ciphertext → Except KmsFault Secret) (limit : Nat) (x y : Secret) (count : Nat)

/-- A secret is to be created, and so many steps are made. -/
def creating : Side (.ofFunctions encrypt decrypt) :=
  stepping w 1 (served encrypt decrypt limit x)
    (calling w 1 (.create x) (.new _ settings emptyDisk 0)) count

/-- Then it leaves the cache, if it is there, and is to be got, and so many steps are made. -/
def getting (created : Nat) : Side (.ofFunctions encrypt decrypt) :=
  stepping w 2 (served encrypt decrypt limit x)
    (calling w 2 .get (evicting w (creating w settings encrypt decrypt limit x created))) count

variable {w settings encrypt decrypt limit x y count}

theorem sideBySide_getting (hsize : x.Alike y) {created : Nat}
    (hcreating : ∀ n < created, InStep encrypt decrypt limit x y 1
      (creating w settings encrypt decrypt limit x n).store
      (creating w settings encrypt decrypt limit y n).store)
    (hgetting : ∀ n < count, InStep encrypt decrypt limit x y 2
      (getting w settings encrypt decrypt limit x n created).store
      (getting w settings encrypt decrypt limit y n created).store)
    (hfresh : (creating w settings encrypt decrypt limit x created).store.calls.find? 2 = none) :
    SideBySide (.ofFunctions encrypt decrypt) settings emptyDisk 0 w
      (getting w settings encrypt decrypt limit x count created)
      (getting w settings encrypt decrypt limit y count created) := by
  have hserves : Serves (.ofFunctions encrypt decrypt) () encrypt decrypt :=
    ⟨fun _ _ => rfl, fun _ => rfl⟩
  have hstart : SideBySide (.ofFunctions encrypt decrypt) settings emptyDisk 0 w
      (calling w 1 (.create x) (.new _ settings emptyDisk 0))
      (calling w 1 (.create y) (.new _ settings emptyDisk 0)) :=
    SideBySide.start.incident (.call 1 "a" (.create hsize)) rfl rfl rfl
  have hcreated := sideBySide_stepping hstart hserves hserves hcreating
  have hevicted := hcreated.incident (.evict "a") trivial rfl rfl
  have hcalled := hevicted.incident (.call 2 "a" .get) hfresh rfl rfl
  exact sideBySide_stepping hcalled hserves hserves hgetting

end

/-- What is encrypted is the secret itself. The ciphertexts of some secrets name no master key. -/
def namelessEncrypt (key : String) (x : Secret) : Except KmsFault Ciphertext :=
  .ok ⟨if x.bytes.head? = some 0xaa then "" else key, x.bytes⟩

/-- The bytes of a ciphertext are the secret. -/
def namelessDecrypt (c : Ciphertext) : Except KmsFault Secret :=
  match Secret.ofBytes c.bytes with
  | .ok x => .ok x
  | .error fault => .error (.other fault.message)

/-- A key management system that never fails for what it has encrypted. -/
def nameless : KeyService := .ofFunctions namelessEncrypt namelessDecrypt

theorem failsBlindly_nameless : nameless.FailsBlindly := by
  refine ⟨fun c d => c.bytes.length = d.bytes.length, fun _ _ => True,
    KeyService.hidesBy_ofFunctions (fun _ => rfl) (fun _ _ _ h => .ok h) fun {c d} h => ?_⟩
  have hsame := Secret.ofBytes_alike h
  unfold namelessDecrypt
  generalize Secret.ofBytes c.bytes = result at *
  generalize Secret.ofBytes d.bytes = result' at *
  cases hsame with
  | ok h => exact .ok h
  | error fault => exact .error _

/-- A secret is created in memory and got again. -/
def namelessRun (x : Secret) : Side nameless :=
  getting wording (settings .memory (some "k")) namelessEncrypt namelessDecrypt 0 x 9 10

/-- A ciphertext is the secret after a mark, which is longer for some secrets than for others. -/
def marked (x : Secret) : Ciphertext :=
  ⟨"k", if x.bytes.head? = some 0xaa then 0x00 :: x.bytes else 0x01 :: 0x00 :: 0x00 :: x.bytes⟩

/-- What follows the mark is the secret. -/
def markedDecrypt (c : Ciphertext) : Except KmsFault Secret :=
  namelessDecrypt ⟨c.key, c.bytes.drop (if c.bytes.head? = some 0x00 then 1 else 3)⟩

theorem markedDecrypt_marked (x : Secret) : markedDecrypt (marked x) = .ok x := by
  unfold markedDecrypt marked
  split_ifs <;> simp_all [namelessDecrypt, Secret.ofBytes_bytes]

theorem readable_marked (x : Secret) : (marked x).Readable where
  key_ne := by
    change "k" ≠ ""
    decide
  size_le := by
    have hrecord := (marked x).length_toRecord_le
    have hkey : (marked x).key.utf8ByteSize = 1 := rfl
    have hbytes : (marked x).bytes.length ≤ x.bytes.length + 3 := by
      unfold marked
      split_ifs <;> simp
    have hsize : x.bytes.length ≤ 4096 := x.length_le
    have hmax : 10000 ≤ Ciphertext.maxRecordSize := by decide
    omega

/-- A key management system that makes such ciphertexts. -/
def marking : KeyService := .ofFunctions (fun _ x => .ok (marked x)) markedDecrypt

theorem discreet_marking : marking.Discreet := by
  refine ⟨fun c d => c = d ∨ ∃ x y, x.Alike y ∧ c = marked x ∧ d = marked y, fun _ _ => True,
    KeyService.hidesBy_ofFunctions (fun _ => .inl rfl)
      (fun _ x y h => .ok (.inr ⟨x, y, h, rfl, rfl⟩)) ?decrypt, ?readable⟩
  case decrypt =>
    rintro c d (rfl | ⟨x, y, h, rfl, rfl⟩)
    · cases markedDecrypt c with
      | ok x => exact .ok (.refl x)
      | error fault => exact .error fault
    · rw [markedDecrypt_marked, markedDecrypt_marked]
      exact .ok h
  case readable =>
    rintro c d (rfl | ⟨x, y, -, rfl, rfl⟩)
    · rfl
    · exact iff_of_true (readable_marked x) (readable_marked y)

/-- The words tell whether a record breaks off after a text or within one. -/
def wordingOfPlace : Ciphertext.Wording where
  json record :=
    if record.getLast? = some 0x22 then "EOF while parsing an object"
    else "EOF while parsing a string"
  base64 _ := "Invalid padding"

/-- A secret is got when 25 bytes of its file are written. -/
def markedRun (x : Secret) : Side marking :=
  getting wordingOfPlace (settings (.files "keys") (some "k")) (fun _ x => .ok (marked x))
    markedDecrypt 24 x 9 10

end Sample

/-- **Secrets may be seen.** A key management system whose failures do not depend on the bytes of
secrets may still name no master key for some secrets: these are stored and cannot be got again, and
others of their size can. Where it is discreet, but the sizes of ciphertexts depend on the secrets,
a call that reads a record of which a part is written may note another cause. -/
theorem secrets_shown_namelessKey :
    (Sample.nameless.FailsBlindly ∧
      SideBySide Sample.nameless (Sample.settings .memory (some "k")) Sample.emptyDisk 0
        Sample.wording (Sample.namelessRun Sample.secret) (Sample.namelessRun Sample.alikeSecret) ∧
      (Sample.namelessRun Sample.secret).store.outcome? 2 = some (.error .keySealed) ∧
      (Sample.namelessRun Sample.alikeSecret).store.outcome? 2 =
        some (.ok (.secret Sample.alikeSecret)) ∧
      (Sample.namelessRun Sample.secret).store.view ≠
        (Sample.namelessRun Sample.alikeSecret).store.view) ∧
    Sample.marking.Discreet ∧
      SideBySide Sample.marking (Sample.settings (.files "keys") (some "k")) Sample.emptyDisk 0
        Sample.wordingOfPlace (Sample.markedRun Sample.secret)
        (Sample.markedRun Sample.alikeSecret) ∧
      (Sample.markedRun Sample.secret).notices =
        [.undecodable "invalid record: EOF while parsing an object"] ∧
      (Sample.markedRun Sample.alikeSecret).notices =
        [.undecodable "invalid record: EOF while parsing a string"] := by
  have hsize : Sample.secret.Alike Sample.alikeSecret := rfl
  have hsealed : (Sample.namelessRun Sample.secret).store.outcome? 2 =
      some (.error .keySealed) := by decide +kernel
  have hgiven : (Sample.namelessRun Sample.alikeSecret).store.outcome? 2 =
      some (.ok (.secret Sample.alikeSecret)) := by decide +kernel
  refine ⟨⟨Sample.failsBlindly_nameless, ?nameless, hsealed, hgiven, fun hview => ?view⟩,
    Sample.discreet_marking, ?marked, by decide +kernel, by decide +kernel⟩
  case nameless =>
    exact Sample.sideBySide_getting hsize (by decide +kernel) (by decide +kernel)
      (by decide +kernel)
  case view =>
    have houtcome : (Sample.namelessRun Sample.secret).store.view.outcomes 2 =
        (Sample.namelessRun Sample.alikeSecret).store.view.outcomes 2 := by rw [hview]
    simp only [view, hsealed, hgiven, Option.map_some] at houtcome
    cases houtcome
  case marked =>
    exact Sample.sideBySide_getting hsize (by decide +kernel) (by decide +kernel)
      (by decide +kernel)

end Store

end Keyring
