import Mathlib.Data.List.Forall2
import Keyring.Config.Environment
import Keyring.Proofs.Text.Digits

/-!
# The fields of a configuration

Every field of a configuration has a variable of the environment. It has the value that the text of
the variable stands for, if that is set, and otherwise the value that it had before. Some values are
not accepted. A field is faulty if its variable has a text that stands for no value, or if its value
is not accepted.

- `BackendKind.parse_eq_ok_iff`: the texts that name a backend;
- `Config.Field`, `Field.From`: the fields, and where their values are from;
- `Field.Accepts`, `Field.Faulty`, `Field.IsFirst`: the values that are accepted, and the field that
  is found faulty first;
- `Field.From.same_of_eq`: the value of a field is settled by where it is from.
-/

namespace Keyring

/-! ### Names of backends -/

namespace BackendKind

/-- The names of a backend. -/
def names : BackendKind → List String
  | files => ["fs", "filesystem"]
  | memory => ["mem", "memory"]

/-- A text names a backend if it is one of its names, each letter of which may be a capital. -/
def IsNamed (kind : BackendKind) (text : String) : Prop :=
  ∃ name ∈ kind.names, List.Forall₂ (fun c d => c = d ∨ c = d.toUpper) text.toList name.toList

variable {kind other : BackendKind} {text : String}

/-- The characters that a small letter stands for are itself and its capital. -/
theorem toLower_eq_iff {c d : Char} (hlow : 'a' ≤ d) (hhigh : d ≤ 'z') :
    c.toLower = d ↔ c = d ∨ c = d.toUpper := by
  have hle : 97 ≤ d.val.toNat := hlow
  have hge : d.val.toNat ≤ 122 := hhigh
  have hdown : ('a'.val - 'A'.val).toNat = 32 := rfl
  have hup : ('A'.val - 'a'.val).toNat = 2 ^ 32 - 32 := rfl
  have ha : 'a'.val.toNat = 97 := rfl
  have hz : 'z'.val.toNat = 122 := rfl
  have hA : 'A'.val.toNat = 65 := rfl
  have hZ : 'Z'.val.toNat = 90 := rfl
  -- the two cases are 32 apart, and turning one into the other is counted modulo `2 ^ 32`
  delta Char.toLower Char.toUpper
  simp only [UInt32.le_iff_toNat_le, Char.ext_iff, ge_iff_le, ← UInt32.toNat_inj]
  split <;> split <;> (try simp only [UInt32.toNat_add]) <;> omega

theorem map_toLower_eq_iff {text name : List Char}
    (h : name.all (fun d => 'a' ≤ d && d ≤ 'z') = true) :
    text.map Char.toLower = name ↔ List.Forall₂ (fun c d => c = d ∨ c = d.toUpper) text name := by
  induction name generalizing text with
  | nil => simp
  | cons d name ih =>
    cases text with
    | nil => simp
    | cons c text =>
      simp only [List.all_cons, Bool.and_eq_true, decide_eq_true_eq] at h
      obtain ⟨⟨hlow, hhigh⟩, hname⟩ := h
      rw [List.map_cons, List.cons.injEq, List.forall₂_cons, toLower_eq_iff hlow hhigh, ih hname]

theorem ofName?_eq_some_iff : ofName? text = some kind ↔ text ∈ kind.names := by
  unfold ofName?
  split_ifs with hfiles hmemory
  · cases kind <;> simp_all [names]
    rcases hfiles with rfl | rfl <;> simp
  · cases kind <;> simp_all [names]
  · cases kind <;> simp_all [names]

/-- A backend is read of the texts that name it. -/
theorem parse_eq_ok_iff : parse text = .ok kind ↔ kind.IsNamed text := by
  have hname (name : String) (hname : name ∈ kind.names) :
      String.ofList (text.toList.map Char.toLower) = name ↔
        List.Forall₂ (fun c d => c = d ∨ c = d.toUpper) text.toList name.toList := by
    have hsmall : name.toList.all (fun d => 'a' ≤ d && d ≤ 'z') = true := by
      cases kind <;> simp only [names, List.mem_cons, List.not_mem_nil, or_false] at hname <;>
        rcases hname with rfl | rfl <;> decide
    rw [← map_toLower_eq_iff hsmall, ← String.toList_inj, String.toList_ofList]
  have hparse : parse text = .ok kind ↔
      ofName? (String.ofList (text.toList.map Char.toLower)) = some kind := by
    unfold parse
    dsimp only
    split
    · next found h => rw [h, Except.ok.injEq, Option.some.injEq]
    · next h => simp [h]
  rw [hparse, ofName?_eq_some_iff, IsNamed]
  constructor
  · intro hmem
    exact ⟨_, hmem, (hname _ hmem).1 rfl⟩
  · rintro ⟨name, hmem, hletters⟩
    rw [(hname name hmem).2 hletters]
    exact hmem

/-- A text that names no backend is quoted in the error, in small letters. -/
theorem parse_eq_error (h : ∀ kind : BackendKind, ¬kind.IsNamed text) :
    parse text = .error ("unknown backend '" ++ String.ofList (text.toList.map Char.toLower) ++
      "', expected fs or mem") := by
  have hnone : ofName? (String.ofList (text.toList.map Char.toLower)) = none := by
    by_contra hsome
    obtain ⟨kind, hkind⟩ := Option.ne_none_iff_exists'.1 hsome
    refine h kind (parse_eq_ok_iff.1 ?_)
    unfold parse
    simp only [hkind]
  unfold parse
  simp only [hnone]

/-- A text names one backend at most. -/
theorem IsNamed.unique (h : kind.IsNamed text) (h' : other.IsNamed text) : kind = other :=
  Except.ok.inj ((parse_eq_ok_iff.2 h).symm.trans (parse_eq_ok_iff.2 h'))

end BackendKind

namespace Config

/-! ### Fields -/

/-- The fields of a configuration, in the order in which they are found faulty. -/
inductive Field where
  | backend
  | expiry
  | unusedExpiry
  | directory
  | key
  | keyFile
  deriving DecidableEq

namespace Field

/-- All fields in their order. -/
def all : List Field := [.backend, .expiry, .unusedExpiry, .directory, .key, .keyFile]

/-- The name of the variable of a field. -/
def variableName : Field → String
  | backend => "KEYHOLD_STORE_BACKEND"
  | expiry => "KEYHOLD_CACHE_EXPIRY_SECS"
  | unusedExpiry => "KEYHOLD_CACHE_EXPIRY_UNUSED_SECS"
  | directory => "KEYHOLD_STORE_DIR"
  | key => "KEYHOLD_KMS_KEY"
  | keyFile => "KEYHOLD_KMS_KEY_FILE"

/-- Two configurations have the same value of a field. -/
def Same (c c' : Config) : Field → Prop
  | backend => c.backend = c'.backend
  | expiry => c.expirySeconds = c'.expirySeconds
  | unusedExpiry => c.unusedExpirySeconds = c'.unusedExpirySeconds
  | directory => c.directory = c'.directory
  | key => c.kms.map Kms.key = c'.kms.map Kms.key
  | keyFile => c.kms.map Kms.keyFile = c'.kms.map Kms.keyFile

/-- The field has the value that a text stands for. -/
def Gives (text : String) (c : Config) : Field → Prop
  | backend => c.backend.IsNamed text
  | expiry => Text.Decimal text.toList c.expirySeconds.toNat
  | unusedExpiry => Text.Decimal text.toList c.unusedExpirySeconds.toNat
  | directory => c.directory = Text.Utf8.ofString text
  | key => c.kms.map Kms.key = some text
  | keyFile => c.kms.map Kms.keyFile = some (Text.Utf8.ofString text)

/-- The field has the value that it has in the configuration `F`; how secrets are encrypted has
empty parts where `F` does not say it. -/
def Keeps (F c : Config) : Field → Prop
  | key => ∀ k ∈ c.kms, k.key = (F.kms.map Kms.key).getD ""
  | keyFile => ∀ k ∈ c.kms, k.keyFile = (F.kms.map Kms.keyFile).getD []
  | f => f.Same F c

/-- The value of the field is that of its variable, if it is set, and otherwise that of the
configuration `F`. It is said how secrets are encrypted if `F` or one of the two variables says
something of it. -/
structure From (e : Environment) (F c : Config) (f : Field) : Prop where
  set : ∀ text, e.text? f.variableName = some text → f.Gives text c
  unset : e.text? f.variableName = none → f.Keeps F c
  kms : f = .key ∨ f = .keyFile →
    (c.kms = none ↔ F.kms = none ∧ e.text? key.variableName = none ∧
      e.text? keyFile.variableName = none)

/-- The value of the field is accepted: no path is empty, and no name of a key is blank. -/
def Accepts (c : Config) : Field → Prop
  | directory => c.directory ≠ []
  | key => ∀ k ∈ c.kms, ∃ d ∈ k.key.toList, Text.isBlank d = false
  | keyFile => ∀ k ∈ c.kms, k.keyFile ≠ []
  | _ => True

/-- The variable of the field has a text that stands for no value, or the value of the field is not
accepted. -/
def Faulty (e : Environment) (F : Config) (f : Field) : Prop :=
  (∃ text, e.text? f.variableName = some text ∧ ∀ c, ¬f.Gives text c) ∨
    ∃ c, f.From e F c ∧ ¬f.Accepts c

/-- The field is faulty, and none before it is. -/
def IsFirst (e : Environment) (F : Config) (f : Field) : Prop :=
  f.Faulty e F ∧ ∀ g ∈ all.takeWhile (· ≠ f), ¬g.Faulty e F

/-- What is said of a faulty field, if its variable has a text. -/
def message (text : String) : Field → String
  | backend => "unknown backend '" ++ String.ofList (text.toList.map Char.toLower) ++
      "', expected fs or mem"
  | expiry => "KEYHOLD_CACHE_EXPIRY_SECS must be a valid number"
  | unusedExpiry => "KEYHOLD_CACHE_EXPIRY_UNUSED_SECS must be a valid number"
  | directory => "store.dir must not be empty"
  | key => "kms.key must not be empty"
  | keyFile => "kms.key_file must not be empty"

/-- The error for a faulty field. -/
def error (e : Environment) (f : Field) : Error :=
  .invalidConfig (f.message ((e.text? f.variableName).getD ""))

variable {e e' : Environment} {F c c' : Config} {f g : Field}

/-- How secrets are encrypted is the same if its two parts are. -/
theorem kms_eq_of_same (hkey : key.Same c c') (hkeyFile : keyFile.Same c c') : c.kms = c'.kms := by
  simp only [Same] at hkey hkeyFile
  cases hc : c.kms <;> cases hc' : c'.kms
  case none.none => rfl
  case none.some | some.none => simp [hc, hc'] at hkey
  case some.some k k' =>
    rw [hc, hc'] at hkey hkeyFile
    obtain ⟨name, path⟩ := k
    obtain ⟨name', path'⟩ := k'
    obtain rfl : name = name' := Option.some.inj hkey
    obtain rfl : path = path' := Option.some.inj hkeyFile
    rfl

/-- Configurations are the same if all their fields are. -/
theorem eq_of_same (h : ∀ f : Field, f.Same c c') : c = c' := by
  have hkms : c.kms = c'.kms := kms_eq_of_same (h .key) (h .keyFile)
  obtain ⟨backend, directory, expiry, unused, kms⟩ := c
  obtain ⟨backend', directory', expiry', unused', kms'⟩ := c'
  obtain rfl : backend = backend' := h .backend
  obtain rfl : directory = directory' := h .directory
  obtain rfl : expiry = expiry' := h .expiry
  obtain rfl : unused = unused' := h .unusedExpiry
  obtain rfl : kms = kms' := hkms
  rfl

/-- The value of a field is settled by the text of its variable and by whether there is something
said of how secrets are encrypted. -/
theorem From.same_of_eq (h : f.From e F c) (h' : f.From e' F c')
    (htext : e.text? f.variableName = e'.text? f.variableName)
    (hkms : f = .key ∨ f = .keyFile → (c.kms = none ↔ c'.kms = none)) : f.Same c c' := by
  cases hset : e.text? f.variableName with
  | some text =>
    -- a text names one backend and one number at most
    have hgives := h.set text hset
    have hgives' := h'.set text (htext.symm.trans hset)
    cases f with
    | backend => exact BackendKind.IsNamed.unique hgives hgives'
    | expiry | unusedExpiry => exact UInt64.toNat_inj.1 (Text.Decimal.unique hgives hgives')
    | directory | key | keyFile => exact Eq.trans hgives hgives'.symm
  | none =>
    have hkeeps := h.unset hset
    have hkeeps' := h'.unset (htext.symm.trans hset)
    cases f with
    | backend | expiry | unusedExpiry | directory => exact Eq.trans (Eq.symm hkeeps) hkeeps'
    | key | keyFile =>
      simp only [Same]
      cases hc : c.kms <;> cases hc' : c'.kms
      case none.none => rfl
      case none.some | some.none => simp [hc, hc'] at hkms
      case some.some => simp [hkeeps _ hc, hkeeps' _ hc']

/-- The value of a field is settled by where it is from. -/
theorem From.same (h : f.From e F c) (h' : f.From e F c') : f.Same c c' :=
  h.same_of_eq h' rfl fun hf => (h.kms hf).trans (h'.kms hf).symm

theorem Same.trans {c'' : Config} (h : f.Same c c') (h' : f.Same c' c'') : f.Same c c'' := by
  cases f <;> exact Eq.trans h h'

/-- A part of how secrets are encrypted is the same only if both or neither have it. -/
theorem Same.kms (h : f.Same c c') (hf : f = .key ∨ f = .keyFile) {k' : Kms} (hk' : k' ∈ c'.kms) :
    ∃ k ∈ c.kms, f.Same { c with kms := some k } { c' with kms := some k' } := by
  have hk' := Option.mem_def.1 hk'
  rcases hf with rfl | rfl
  · simp only [Same, hk', Option.map_some] at h
    obtain ⟨k, hk, hkey⟩ := Option.map_eq_some_iff.1 h
    exact ⟨k, hk, congrArg some hkey⟩
  · simp only [Same, hk', Option.map_some] at h
    obtain ⟨k, hk, hkeyFile⟩ := Option.map_eq_some_iff.1 h
    exact ⟨k, hk, congrArg some hkeyFile⟩

/-- Whether a value is accepted depends on the value alone. -/
theorem Same.accepts (h : f.Same c c') (haccepts : f.Accepts c) : f.Accepts c' := by
  cases f with
  | backend | expiry | unusedExpiry => trivial
  | directory => exact fun hempty => haccepts (Eq.trans h hempty)
  | key =>
    intro k' hk'
    obtain ⟨k, hk, hkey⟩ := h.kms (.inl rfl) hk'
    have haccepted := haccepts k hk
    rwa [Option.some.inj hkey] at haccepted
  | keyFile =>
    intro k' hk'
    obtain ⟨k, hk, hkeyFile⟩ := h.kms (.inr rfl) hk'
    have haccepted := haccepts k hk
    rwa [Option.some.inj hkeyFile] at haccepted

/-- So does where it is from. -/
theorem From.of_same (h : f.From e F c) (hsame : f.Same c c') : f.From e F c' := by
  refine ⟨fun text hset => ?_, fun hunset => ?_, fun hf => ?_⟩
  · have hgives := h.set text hset
    cases f <;> simp only [Same, Gives] at hsame hgives ⊢ <;> rwa [← hsame]
  · have hkeeps := h.unset hunset
    cases f with
    | backend | expiry | unusedExpiry | directory => exact Eq.trans hkeeps hsame
    | key =>
      intro k' hk'
      obtain ⟨k, hk, hkey⟩ := hsame.kms (.inl rfl) hk'
      rw [← Option.some.inj hkey]
      exact hkeeps k hk
    | keyFile =>
      intro k' hk'
      obtain ⟨k, hk, hkeyFile⟩ := hsame.kms (.inr rfl) hk'
      rw [← Option.some.inj hkeyFile]
      exact hkeeps k hk
  · rw [← h.kms hf]
    rcases hf with rfl | rfl
    · rw [← Option.map_eq_none_iff (f := Kms.key), ← hsame, Option.map_eq_none_iff]
    · rw [← Option.map_eq_none_iff (f := Kms.keyFile), ← hsame, Option.map_eq_none_iff]

/-- A field that has a value is faulty if the value is not accepted. -/
theorem From.faulty_iff (h : f.From e F c) : f.Faulty e F ↔ ¬f.Accepts c := by
  constructor
  · rintro (⟨text, hset, hnone⟩ | ⟨c', h', hrefused⟩)
    · exact absurd (h.set text hset) (hnone c)
    · exact fun haccepts => hrefused ((h.same h').accepts haccepts)
  · intro hrefused
    exact .inr ⟨c, h, hrefused⟩

/-- There is only one first faulty field. -/
theorem IsFirst.unique (h : f.IsFirst e F) (h' : g.IsFirst e F) : f = g := by
  by_contra hne
  have hbefore : f ∈ all.takeWhile (· ≠ g) ∨ g ∈ all.takeWhile (· ≠ f) := by
    cases f <;> cases g <;> first
      | exact absurd rfl hne
      | decide
  rcases hbefore with hf | hg
  · exact h'.2 f hf h.1
  · exact h.2 g hg h'.1

end Field

end Config

end Keyring
