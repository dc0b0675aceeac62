import Keyring.Proofs.Cache.Alike
import Keyring.Proofs.Disk.Alike
import Keyring.Proofs.Kms.Discreet
import Keyring.Proofs.Store.Lasting
import Keyring.Store.Notice

/-!
# Key stores that differ in secrets

Two key stores in which everything is the same but the bytes of secrets: the same files under the
same paths, the same names in the cache, the same calls at the same stages. What a file or a table
holds is read alike in both, even if only a part of a record is there.

- `Ciphertext.readNoting`: what is read of bytes, or what is noted of them;
- `RecordAlike`: records of secrets of one size, or of ciphertexts that stand for such secrets;
- `BytesAlike`, `ReadAlike`: bytes that are understood alike, and contents of which such bytes are
  read, be they records or parts of them;
- `PartsAlike`: as much of the records of two ciphertexts is read alike;
- `partsAlike_of_readable`, `partsAlike_of_alike`: it is if they can be read alike and nothing is
  noted, or if they are of one size;
- `readAlike_take`: as much of two records is read alike, if it is the whole of both or of neither;
- `Work.Alike`, `Stage.Alike`, `Call.Alike`, `Twins`: calls and stores that differ in secrets only.
-/

namespace Keyring

/-- The same, but for the bytes of a secret. -/
inductive Operation.Alike : Operation → Operation → Prop where
  | create {x y : Secret} (h : x.Alike y) : Alike (.create x) (.create y)
  | get : Alike .get .get
  | delete : Alike .delete .delete

/-- The same, but for the bytes of a secret. -/
inductive Answer.Alike : Answer → Answer → Prop where
  | done : Alike .done .done
  | secret {x y : Secret} (h : x.Alike y) : Alike (.secret x) (.secret y)

/-- The same failure, or answers that are the same but for the bytes of a secret. -/
def Outcome.Alike (outcome outcome' : Outcome) : Prop := SameResult Answer.Alike outcome outcome'

namespace Ciphertext

/-- What is read of the bytes of a record, or what is noted of them in some words. -/
def readNoting (words : List UInt8 → Fault → String) (record : List UInt8) :
    Except String Ciphertext :=
  match decode record with
  | .ok c => .ok c
  | .error fault => .error (words record fault)

/-- Nothing is noted. -/
def silent (_ : List UInt8) (_ : Fault) : String := ""

/-- A library tells of a record that breaks off where it does, whatever the encrypted bytes are: the
text names the kind of the part that was being read, the line and the column. -/
def Wording.Positional (w : Wording) : Prop :=
  ∀ c d : Ciphertext, c.Alike d → ∀ n < c.toRecord.length,
    w.json (c.toRecord.take n) = w.json (d.toRecord.take n)

variable {words : List UInt8 → Fault → String} {kin : Ciphertext → Ciphertext → Prop}
  {r r' : List UInt8}

/-- What is read and noted alike is read alike. -/
theorem sameResult_ofRecord (h : SameResult kin (readNoting words r) (readNoting words r')) :
    SameResult kin (ofRecord r) (ofRecord r') := by
  unfold readNoting at h
  unfold ofRecord
  generalize decode r = result at *
  generalize decode r' = result' at *
  cases result with
  | ok c =>
    cases result' with
    | ok d =>
      cases h with
      | ok hcd => exact .ok hcd
    | error fault => cases h
  | error fault =>
    cases result' with
    | ok d => cases h
    | error fault' => exact .error _

/-- Where nothing is noted, it is enough to be read alike. -/
theorem sameResult_readNoting_silent (h : SameResult kin (ofRecord r) (ofRecord r')) :
    SameResult kin (readNoting silent r) (readNoting silent r') := by
  unfold ofRecord at h
  unfold readNoting
  generalize decode r = result at *
  generalize decode r' = result' at *
  cases result with
  | ok c =>
    cases result' with
    | ok d =>
      cases h with
      | ok hcd => exact .ok hcd
    | error fault => cases h
  | error fault =>
    cases result' with
    | ok d => cases h
    | error fault' => exact .error ""

/-- Bytes that are no record are refused with one error. -/
theorem eq_of_ofRecord_eq_error {bytes : List UInt8} {error : Error}
    (h : ofRecord bytes = .error error) : error = .malformedCiphertext := by
  unfold ofRecord at h
  split at h <;> cases h
  rfl

end Ciphertext

namespace Store

variable (settings : Settings) (kin : Ciphertext → Ciphertext → Prop)
  (words : List UInt8 → Ciphertext.Fault → String)

/-- Two records of secrets of one size, or of ciphertexts that are kin. -/
inductive RecordAlike : List UInt8 → List UInt8 → Prop where
  | plain (hkey : settings.masterKey = none) {x y : Secret} (h : x.Alike y) :
    RecordAlike (plainRecord x) (plainRecord y)
  | sealed {key : String} (hkey : settings.masterKey = some key) {c d : Ciphertext} (h : kin c d) :
    RecordAlike c.toRecord d.toRecord

/-- As much of the records of two ciphertexts is read alike and the same is noted of it, if it is
the whole of both or of neither, and equally much where the records are equally long. -/
def PartsAlike (c d : Ciphertext) : Prop :=
  ∀ (backend : Backend) {n n' : Nat}, (n < c.toRecord.length ↔ n' < d.toRecord.length) →
    (c.toRecord.length = d.toRecord.length → n = n') →
    SameResult kin (Ciphertext.readNoting words (backend.readable (c.toRecord.take n)))
      (Ciphertext.readNoting words (backend.readable (d.toRecord.take n')))

/-- The bytes of two records are understood alike, and the same is noted of them. -/
def BytesAlike (r r' : List UInt8) : Prop :=
  match settings.masterKey with
  | none => SameResult Secret.Alike (Secret.ofRecord r) (Secret.ofRecord r')
  | some _ => SameResult kin (Ciphertext.readNoting words r) (Ciphertext.readNoting words r')

/-- Two contents that are read alike, and of which the same is noted. -/
def ReadAlike (content content' : List UInt8) : Prop :=
  BytesAlike settings kin words (settings.backend.readable content)
    (settings.backend.readable content')

/-- The same work, but for the bytes of secrets. As long as the records are of one length, as much
of both is written. -/
inductive Work.Alike : Work → Work → Prop where
  | makeDirectory {x y : Secret} {r r' : List UInt8} (h : x.Alike y)
    (hrecord : RecordAlike settings kin r r') : Alike (.makeDirectory x r) (.makeDirectory y r')
  | createFile {x y : Secret} {r r' : List UInt8} (h : x.Alike y)
    (hrecord : RecordAlike settings kin r r') : Alike (.createFile x r) (.createFile y r')
  | write {x y : Secret} {r r' : List UInt8} {n n' : Nat} (h : x.Alike y)
    (hrecord : RecordAlike settings kin r r') (hwritten : r.length = r'.length → n = n') :
    Alike (.write x r n) (.write y r' n')
  | flush {x y : Secret} (h : x.Alike y) : Alike (.flush x) (.flush y)
  | sync {x y : Secret} (h : x.Alike y) : Alike (.sync x) (.sync y)
  | rollBack (fault : FileFault) : Alike (.rollBack fault) (.rollBack fault)
  | insert {x y : Secret} {r r' : List UInt8} (h : x.Alike y)
    (hrecord : RecordAlike settings kin r r') : Alike (.insert x r) (.insert y r')
  | cacheCreated {x y : Secret} (h : x.Alike y) : Alike (.cacheCreated x) (.cacheCreated y)
  | read : Alike .read .read
  | decrypt {key : String} (hkey : settings.masterKey = some key) {c d : Ciphertext}
    (h : kin c d) : Alike (.decrypt c) (.decrypt d)
  | cacheRead {x y : Secret} (h : x.Alike y) : Alike (.cacheRead x) (.cacheRead y)
  | remove : Alike .remove .remove
  | purge {outcome outcome' : Outcome} (h : outcome.Alike outcome') :
    Alike (.purge outcome) (.purge outcome')

/-- The same stage, but for the bytes of secrets. -/
inductive Stage.Alike : Stage → Stage → Prop where
  | start : Alike .start .start
  | lookUpNew {x y : Secret} (h : x.Alike y) : Alike (.lookUpNew x) (.lookUpNew y)
  | lookUp : Alike .lookUp .lookUp
  | record {x y : Secret} (h : x.Alike y) : Alike (.record x) (.record y)
  | encrypt {key : String} (hkey : settings.masterKey = some key) {x y : Secret} (h : x.Alike y) :
    Alike (.encrypt x) (.encrypt y)
  | obtain {w w' : Work} (h : w.Alike settings kin w') : Alike (.obtain w) (.obtain w')
  | request {w w' : Work} (h : w.Alike settings kin w') : Alike (.request w) (.request w')
  | wait {w w' : Work} (h : w.Alike settings kin w') : Alike (.wait w) (.wait w')
  | work {w w' : Work} (h : w.Alike settings kin w') : Alike (.work w) (.work w')
  | leave {outcome outcome' : Outcome} (h : outcome.Alike outcome') :
    Alike (.leave outcome) (.leave outcome')
  | finished {outcome outcome' : Outcome} (h : outcome.Alike outcome') :
    Alike (.finished outcome) (.finished outcome')

/-- The same call, but for the bytes of secrets. -/
structure Call.Alike (call call' : Call) : Prop where
  name : call.name = call'.name
  operation : call.operation.Alike call'.operation
  stage : call.stage.Alike settings kin call'.stage

/-- Two stores with the same settings that differ in the bytes of secrets only. -/
structure Twins (s t : Store) : Prop where
  left : s.settings = settings
  right : t.settings = settings
  disk : s.disk.Alike (ReadAlike settings kin words) t.disk
  table : ∀ name, Option.Rel (ReadAlike settings kin words) (s.table.find? name)
    (t.table.find? name)
  cache : s.cache.Alike t.cache
  started : s.started = t.started
  locks : s.locks = t.locks
  calls : ∀ id, Option.Rel (Call.Alike settings kin) (s.calls.find? id) (t.calls.find? id)
  log : s.log = t.log
  encryptions : s.encryptions = t.encryptions
  decryptions : s.decryptions = t.decryptions

variable {settings : Settings} {kin : Ciphertext → Ciphertext → Prop}
  {words : List UInt8 → Ciphertext.Fault → String} {r r' : List UInt8} {w w' : Work}
  {c d : Ciphertext}

/-- Work that differs in secrets only holds the lock in the same way. -/
theorem Work.Alike.mode_eq (h : w.Alike settings kin w') : w.mode = w'.mode := by
  cases h <;> rfl

/-- The first work of storing records that are alike. -/
theorem storing_alike {x y : Secret} (h : x.Alike y) (hrecord : RecordAlike settings kin r r') :
    (settings.backend.storing x r).Alike settings kin (settings.backend.storing y r') := by
  unfold Backend.storing
  cases settings.backend with
  | files directory => exact .makeDirectory h hrecord
  | memory => exact .insert h hrecord

/-! ### What is read of records and parts of them -/

/-- What the same bytes are read as is alike. -/
theorem readAlike_refl (hrefl : ∀ c, kin c c) (content : List UInt8) :
    ReadAlike settings kin words content content := by
  unfold ReadAlike BytesAlike
  split
  · cases Secret.ofRecord (settings.backend.readable content) with
    | error fault => exact .error fault
    | ok x => exact .ok (.refl x)
  · cases Ciphertext.readNoting words (settings.backend.readable content) with
    | error noted => exact .error noted
    | ok c => exact .ok (hrefl c)

/-- As much is read of a part of contents of which as much is there. -/
theorem readable_take (backend : Backend) (n : Nat) :
    ∃ m, ∀ record : List UInt8, backend.readable (record.take n) = record.take m := by
  cases backend with
  | files directory => exact ⟨min readLimit n, fun _ => List.take_take⟩
  | memory => exact ⟨n, fun _ => rfl⟩

/-- A ciphertext is not read of a part of its record. -/
theorem ofRecord_readable_take (backend : Backend) (c : Ciphertext) {n : Nat}
    (h : n < c.toRecord.length) :
    Ciphertext.ofRecord (backend.readable (c.toRecord.take n)) = .error .malformedCiphertext := by
  have hshort := readable_prefix backend (c.toRecord.take n)
  refine Ciphertext.ofRecord_eq_error_of_prefix
    (hshort.trans (List.take_prefix _ _)) fun heq => ?_
  have hlength := hshort.length_le
  rw [heq, List.length_take] at hlength
  omega

/-- Whole records of ciphertexts that are kin are read alike. -/
theorem ofRecord_readable_alike (backend : Backend) (h : kin c d)
    (hreadable : c.Readable ↔ d.Readable) :
    SameResult kin (Ciphertext.ofRecord (backend.readable c.toRecord))
      (Ciphertext.ofRecord (backend.readable d.toRecord)) := by
  by_cases hc : c.Readable
  case pos =>
    have hd := hreadable.1 hc
    rw [readable_of_length_le backend (Nat.le_succ_of_le hc.size_le),
      readable_of_length_le backend (Nat.le_succ_of_le hd.size_le),
      Ciphertext.ofRecord_toRecord hc, Ciphertext.ofRecord_toRecord hd]
    exact .ok h
  case neg =>
    obtain ⟨error, herror⟩ := ofRecord_readable_toRecord backend hc
    obtain ⟨error', herror'⟩ := ofRecord_readable_toRecord backend (mt hreadable.2 hc)
    rw [herror, herror', Ciphertext.eq_of_ofRecord_eq_error herror,
      Ciphertext.eq_of_ofRecord_eq_error herror']
    exact .error _

/-- Records that can be read alike are read alike in part, too, where nothing is noted. -/
theorem partsAlike_of_readable (h : kin c d) (hreadable : c.Readable ↔ d.Readable) :
    PartsAlike kin Ciphertext.silent c d := by
  intro backend n n' hwhole _
  refine Ciphertext.sameResult_readNoting_silent ?_
  by_cases hpart : n < c.toRecord.length
  case pos =>
    rw [ofRecord_readable_take _ c hpart, ofRecord_readable_take _ d (hwhole.1 hpart)]
    exact .error _
  case neg =>
    rw [List.take_of_length_le (Nat.not_lt.1 hpart),
      List.take_of_length_le (Nat.not_lt.1 (mt hwhole.2 hpart))]
    exact ofRecord_readable_alike backend h hreadable

/-- What is noted of a part of a record. -/
theorem readNoting_take (words : List UInt8 → Ciphertext.Fault → String) (c : Ciphertext) {m : Nat}
    (h : m < c.toRecord.length) :
    Ciphertext.readNoting words (c.toRecord.take m) =
      .error (words (c.toRecord.take m)
        (if Ciphertext.maxRecordSize < m then .tooLarge else .notARecord)) := by
  have hlength : (c.toRecord.take m).length = m := by
    rw [List.length_take, Nat.min_eq_left (Nat.le_of_lt h)]
  have hne : c.toRecord.take m ≠ c.toRecord := fun heq => by
    rw [heq] at hlength
    omega
  rw [Ciphertext.readNoting, Ciphertext.decode_of_prefix (List.take_prefix _ _) hne, hlength]

/-- Records of ciphertexts of one size are read alike, and the same is noted of them. -/
theorem partsAlike_of_alike {w : Ciphertext.Wording} (hw : w.Positional) (h : kin c d)
    (halike : c.Alike d) : PartsAlike kin (Ciphertext.Fault.text w) c d := by
  intro backend n n' _ hsame
  have hlength := halike.length_toRecord
  obtain rfl := hsame hlength
  obtain ⟨m, hm⟩ := readable_take backend n
  rw [hm, hm]
  by_cases hpart : m < c.toRecord.length
  case pos =>
    have hpart' : m < d.toRecord.length := by rwa [← hlength]
    rw [readNoting_take _ c hpart, readNoting_take _ d hpart']
    have hcause (fault : Ciphertext.Fault) (h : fault = .tooLarge ∨ fault = .notARecord) :
        Ciphertext.Fault.text w (c.toRecord.take m) fault =
          Ciphertext.Fault.text w (d.toRecord.take m) fault := by
      rcases h with rfl | rfl
      · rfl
      · exact congrArg ("invalid record: " ++ ·) (hw c d halike m hpart)
    rw [hcause _ (by split <;> simp)]
    exact .error _
  case neg =>
    have hwhole := Nat.not_lt.1 hpart
    have hwhole' : d.toRecord.length ≤ m := by rwa [← hlength]
    rw [List.take_of_length_le hwhole, List.take_of_length_le hwhole',
      Ciphertext.readNoting, Ciphertext.readNoting, c.decode_toRecord, d.decode_toRecord,
      ← hlength, ← halike.key]
    split_ifs
    case pos => exact .error (Ciphertext.Fault.text w [] .tooLarge)
    case pos => exact .error (Ciphertext.Fault.text w [] .missingKey)
    case neg => exact .ok h

/-- As much of two records is read alike if it is the whole of both or of neither. -/
theorem readAlike_take (hparts : ∀ {c d}, kin c d → PartsAlike kin words c d)
    (h : RecordAlike settings kin r r') {n n' : Nat} (hwhole : n < r.length ↔ n' < r'.length)
    (hsame : r.length = r'.length → n = n') :
    ReadAlike settings kin words (r.take n) (r'.take n') := by
  cases h with
  | @plain hkey x y h =>
    obtain rfl := hsame (by rw [length_plainRecord, length_plainRecord]; exact congrArg (2 * ·) h)
    obtain ⟨m, hm⟩ := readable_take settings.backend n
    simp only [ReadAlike, BytesAlike, hkey, hm]
    exact ofRecord_take_alike h m
  | @sealed key hkey c d h =>
    simp only [ReadAlike, BytesAlike, hkey]
    exact hparts h settings.backend hwhole hsame

/-- Whole records are read alike. -/
theorem RecordAlike.readAlike (h : RecordAlike settings kin r r')
    (hparts : ∀ {c d}, kin c d → PartsAlike kin words c d) :
    ReadAlike settings kin words r r' := by
  have htake : ReadAlike settings kin words (r.take r.length) (r'.take r'.length) :=
    readAlike_take hparts h (by simp) id
  rwa [List.take_length, List.take_length] at htake

end Store

end Keyring
