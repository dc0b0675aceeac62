import Keyring.Config.Load
import Keyring.Proofs.Config.Fields
import Keyring.Proofs.Disk.Files
import Keyring.Proofs.Secret.Parsing

/-!
# Which values a configuration is made of

Loading overrides the fields one after the other and then looks at their values. It fails for the
first field, in a fixed order, that gets no value, or none from which a key store can be opened.

- `Field.SetBy`, `Overridden`: one field is overridden, and what has been overridden so far;
- `override_cases`, `validate_cases`, `load_cases`: each part of loading ends well or with the first
  faulty field;
- `ofFiles_eq_ok_iff`, `ofFiles_eq_error_iff`: what the files give before that;
- `load_fieldwise`: exactly when it does, and that each variable counts for its own field.
-/

namespace Keyring.Config

variable {e : Environment} {F c : Config} {f : Field}
  {change : Config → String → Except Error Config}

/-! ### Overriding -/

/-- A change of a configuration gives a field the value of a text and leaves the other fields, or
there is no such value and the change fails. -/
def Field.SetBy (f : Field) (change : Config → String → Except Error Config) : Prop :=
  ∀ c text, (∃ c', change c text = .ok c' ∧ f.Gives text c' ∧ ∀ g, g ≠ f → g.Same c c') ∨
    (∀ c', ¬f.Gives text c') ∧ change c text = .error (.invalidConfig (f.message text))

theorem setBy_withBackend : Field.backend.SetBy withBackend := by
  intro c text
  unfold withBackend
  cases hparse : BackendKind.parse text with
  | ok backend =>
    refine .inl ⟨_, rfl, BackendKind.parse_eq_ok_iff.1 hparse, fun g hg => ?_⟩
    cases g with
    | backend => exact absurd rfl hg
    | _ => rfl
  | error message =>
    have hnone (kind : BackendKind) : ¬kind.IsNamed text := fun hnamed => by
      cases (BackendKind.parse_eq_ok_iff.2 hnamed).symm.trans hparse
    obtain rfl := Except.error.inj ((BackendKind.parse_eq_error hnone).symm.trans hparse)
    exact .inr ⟨fun c' => hnone _, rfl⟩

theorem setBy_withDirectory : Field.directory.SetBy withDirectory := by
  intro c text
  refine .inl ⟨_, rfl, rfl, fun g hg => ?_⟩
  cases g with
  | directory => exact absurd rfl hg
  | _ => rfl

/-- The seconds in a text are its number, or it has none that can be kept. -/
theorem secondsOf_cases (name text : String) :
    (∃ n, secondsOf name text = .ok n ∧ Text.Decimal text.toList n.toNat) ∨
      (∀ n : UInt64, ¬Text.Decimal text.toList n.toNat) ∧
        secondsOf name text = .error (.invalidConfig (name ++ " must be a valid number")) := by
  unfold secondsOf
  cases hread : Text.unsigned? (Nat.pow 2 64) text.toList with
  | some n =>
    obtain ⟨hdecimal, hlt⟩ := Text.unsigned?_eq_some_iff.1 hread
    have hn : (UInt64.ofNat n).toNat = n := UInt64.toNat_ofNat_of_lt hlt
    exact .inl ⟨UInt64.ofNat n, rfl, hn.symm ▸ hdecimal⟩
  | none =>
    refine .inr ⟨fun n hdecimal => ?_, rfl⟩
    cases hread.symm.trans (Text.unsigned?_eq_some_iff.2 ⟨hdecimal, n.toNat_lt⟩)

theorem setBy_withExpiry : Field.expiry.SetBy withExpiry := by
  intro c text
  unfold withExpiry
  rcases secondsOf_cases "KEYHOLD_CACHE_EXPIRY_SECS" text with ⟨n, hread, hn⟩ | ⟨hnone, hread⟩
  · rw [hread]
    refine .inl ⟨_, rfl, hn, fun g hg => ?_⟩
    cases g with
    | expiry => exact absurd rfl hg
    | _ => rfl
  · rw [hread]
    exact .inr ⟨fun c' => hnone _, rfl⟩

theorem setBy_withUnusedExpiry : Field.unusedExpiry.SetBy withUnusedExpiry := by
  intro c text
  unfold withUnusedExpiry
  rcases secondsOf_cases "KEYHOLD_CACHE_EXPIRY_UNUSED_SECS" text with
    ⟨n, hread, hn⟩ | ⟨hnone, hread⟩
  · rw [hread]
    refine .inl ⟨_, rfl, hn, fun g hg => ?_⟩
    cases g with
    | unusedExpiry => exact absurd rfl hg
    | _ => rfl
  · rw [hread]
    exact .inr ⟨fun c' => hnone _, rfl⟩

namespace Field

/-- A field of its own does not depend on how secrets are encrypted. -/
def IsOwn (f : Field) : Prop := f ≠ .key ∧ f ≠ .keyFile

theorem IsOwn.keeps (h : f.IsOwn) (hsame : f.Same F c) : f.Keeps F c := by
  cases f with
  | key => exact absurd rfl h.1
  | keyFile => exact absurd rfl h.2
  | _ => exact hsame

/-- The field is overridden by its variable, or left, or faulty. -/
theorem SetBy.cases (h : f.SetBy change) (hown : f.IsOwn) (hsame : f.Same F c) :
    (∃ c', c.overrideBy (e.text? f.variableName) change = .ok c' ∧ f.From e F c' ∧
      ∀ g, g ≠ f → g.Same c c') ∨
    f.Faulty e F ∧ c.overrideBy (e.text? f.variableName) change = .error (f.error e) := by
  cases htext : e.text? f.variableName with
  | none =>
    refine .inl ⟨c, rfl, ⟨fun text hset => ?_, fun _ => hown.keeps hsame, ?_⟩, fun g _ => ?_⟩
    · cases htext.symm.trans hset
    · exact fun hkms => absurd hkms (not_or.2 hown)
    · cases g <;> rfl
  | some text =>
    rcases h c text with ⟨c', hchange, hgives, hothers⟩ | ⟨hnone, hchange⟩
    · refine .inl ⟨c', hchange, ⟨fun other hset => ?_, fun hunset => ?_, ?_⟩, hothers⟩
      · obtain rfl := Option.some.inj (htext.symm.trans hset)
        exact hgives
      · cases htext.symm.trans hunset
      · exact fun hkms => absurd hkms (not_or.2 hown)
    · refine .inr ⟨.inl ⟨text, htext, hnone⟩, ?_⟩
      rw [error, htext]
      exact hchange

end Field

/-- How secrets are encrypted, if one of the two parts is overridden: the other part is as it was,
or empty if there was none. -/
theorem kms_withKms (c : Config) (key keyFile : Option String) :
    (c.withKms key keyFile).kms =
      if key = none ∧ keyFile = none then c.kms
      else some ⟨key.getD ((c.kms.map Kms.key).getD ""),
        (keyFile.map Text.Utf8.ofString).getD ((c.kms.map Kms.keyFile).getD [])⟩ := by
  obtain ⟨backend, directory, expiry, unused, kms⟩ := c
  unfold withKms
  cases key <;> cases keyFile <;> cases kms <;> simp

/-- The two parts of how secrets are encrypted are overridden by their variables. -/
theorem from_withKms (hsame : c.kms = F.kms) (hf : f = .key ∨ f = .keyFile) :
    f.From e F (c.withKms (e.text? "KEYHOLD_KMS_KEY") (e.text? "KEYHOLD_KMS_KEY_FILE")) := by
  have hkms := kms_withKms c (e.text? "KEYHOLD_KMS_KEY") (e.text? "KEYHOLD_KMS_KEY_FILE")
  rw [hsame] at hkms
  generalize c.withKms (e.text? "KEYHOLD_KMS_KEY") (e.text? "KEYHOLD_KMS_KEY_FILE") = c' at hkms ⊢
  have hsection : c'.kms = none ↔ F.kms = none ∧ e.text? Field.key.variableName = none ∧
      e.text? Field.keyFile.variableName = none := by
    rw [hkms]
    simp only [Field.variableName]
    split <;> simp_all
  rcases hf with rfl | rfl
  all_goals
    refine ⟨fun text hset => ?_, fun hunset k hk => ?_, fun _ => hsection⟩
    · simp only [Field.variableName] at hset
      simp [Field.Gives, hkms, hset]
    · -- the part is what it was, or empty if the other part has brought the section into being
      simp only [Field.variableName] at hunset
      rw [Option.mem_def, hkms, hunset] at hk
      split at hk
      · rw [hk]
        rfl
      · rw [← Option.some.inj hk]
        rfl

theorem same_withKms (hown : f.IsOwn) (key keyFile : Option String) :
    f.Same c (c.withKms key keyFile) := by
  unfold withKms
  split
  · cases f <;> rfl
  · cases f with
    | key => exact absurd rfl hown.1
    | keyFile => exact absurd rfl hown.2
    | _ => rfl

/-- Some fields of a configuration have been overridden, and the others are those of `F`. -/
def Overridden (e : Environment) (F : Config) (done : List Field) (c : Config) : Prop :=
  ∀ f, if f ∈ done then f.From e F c else f.Same F c

/-- One more field is overridden, or is faulty. -/
theorem Overridden.step {done : List Field} (h : Overridden e F done c) (hset : f.SetBy change)
    (hown : f.IsOwn) (hnew : f ∉ done) :
    (∃ c', c.overrideBy (e.text? f.variableName) change = .ok c' ∧
      Overridden e F (f :: done) c') ∨
    f.Faulty e F ∧ c.overrideBy (e.text? f.variableName) change = .error (f.error e) := by
  have hsame := h f
  rw [if_neg hnew] at hsame
  rcases hset.cases hown hsame with ⟨c', hchange, hfrom, hothers⟩ | hfaulty
  · refine .inl ⟨c', hchange, fun g => ?_⟩
    by_cases hg : g = f
    · subst hg
      rw [if_pos List.mem_cons_self]
      exact hfrom
    · have hbefore := h g
      simp only [List.mem_cons, hg, false_or]
      split
      · next hdone =>
        rw [if_pos hdone] at hbefore
        exact hbefore.of_same (hothers g hg)
      · next hdone =>
        rw [if_neg hdone] at hbefore
        exact hbefore.trans (hothers g hg)
  · exact .inr hfaulty

/-- A faulty field is the first if those before it are overridden and accepted. -/
theorem Overridden.isFirst {done : List Field} (h : Overridden e F done c) (hfaulty : f.Faulty e F)
    (hbefore : ∀ g ∈ Field.all.takeWhile (· ≠ f), g ∈ done ∧ g.Accepts c) : f.IsFirst e F := by
  refine ⟨hfaulty, fun g hg => ?_⟩
  obtain ⟨hdone, haccepts⟩ := hbefore g hg
  have hfrom := h g
  rw [if_pos hdone] at hfrom
  exact fun hother => hfrom.faulty_iff.1 hother haccepts

/-- All fields are overridden when the last two are. -/
theorem Overridden.from_withKms
    (h : Overridden e F [.unusedExpiry, .expiry, .directory, .backend] c)
    (f : Field) :
    f.From e F (c.withKms (e.text? "KEYHOLD_KMS_KEY") (e.text? "KEYHOLD_KMS_KEY_FILE")) := by
  by_cases hdone : f ∈ [Field.unusedExpiry, .expiry, .directory, .backend]
  · have hown : f.IsOwn := by
      unfold Field.IsOwn
      cases f <;> simp_all
    have hfrom := h f
    rw [if_pos hdone] at hfrom
    exact hfrom.of_same (same_withKms hown _ _)
  · have hkms : F.kms = c.kms := Field.kms_eq_of_same (h .key) (h .keyFile)
    refine Config.from_withKms hkms.symm ?_
    cases f <;> simp_all

/-- Any text is the path of a directory. -/
theorem overrideBy_withDirectory_ne (c : Config) (value? : Option String) (error : Error) :
    c.overrideBy value? withDirectory ≠ .error error := by
  intro h
  cases value? <;> cases h

/-- **Overriding** ends with a configuration whose fields have the values of their variables, or
those of `F`, or with the first of the fields whose variable has no value. -/
theorem override_cases (e : Environment) (F : Config) :
    (∃ c, override e F = .ok c ∧ ∀ f : Field, f.From e F c) ∨
      ∃ f : Field, f.IsFirst e F ∧ override e F = .error (f.error e) := by
  have hstart : Overridden e F [] F := fun f => by cases f <;> rfl
  -- each step either overrides one more field, or its field is the first that is faulty
  unfold override
  rcases hstart.step setBy_withBackend (by simp [Field.IsOwn]) (by simp) with
    ⟨c₁, h₁, hdone₁⟩ | ⟨hfaulty, herror⟩
  case inr =>
    refine .inr ⟨.backend, hstart.isFirst hfaulty (by simp [Field.all]), ?_⟩
    simp only [Field.variableName] at herror
    simp only [bind, Except.bind, herror]
  rcases hdone₁.step setBy_withDirectory (by simp [Field.IsOwn]) (by simp) with
    ⟨c₂, h₂, hdone₂⟩ | ⟨-, herror⟩
  -- a directory is overridden before the expiries, but found faulty only after them
  case inr => exact absurd herror (overrideBy_withDirectory_ne c₁ _ _)
  rcases hdone₂.step setBy_withExpiry (by simp [Field.IsOwn]) (by simp) with
    ⟨c₃, h₃, hdone₃⟩ | ⟨hfaulty, herror⟩
  case inr =>
    refine .inr ⟨.expiry, hdone₂.isFirst hfaulty (by simp [Field.all, Field.Accepts]), ?_⟩
    simp only [Field.variableName] at h₁ h₂ herror
    simp only [bind, Except.bind, h₁, h₂, herror]
  rcases hdone₃.step setBy_withUnusedExpiry (by simp [Field.IsOwn]) (by simp) with
    ⟨c₄, h₄, hdone₄⟩ | ⟨hfaulty, herror⟩
  case inr =>
    refine .inr ⟨.unusedExpiry, hdone₃.isFirst hfaulty (by simp [Field.all, Field.Accepts]), ?_⟩
    simp only [Field.variableName] at h₁ h₂ h₃ herror
    simp only [bind, Except.bind, h₁, h₂, h₃, herror]
  refine .inl ⟨_, ?_, hdone₄.from_withKms⟩
  simp only [Field.variableName] at h₁ h₂ h₃ h₄
  simp only [bind, Except.bind, h₁, h₂, h₃, h₄]
  rfl

/-! ### Validation -/

/-- **Validation** accepts the values of all fields, or refuses the first that it does not
accept. -/
theorem validate_cases (c : Config) :
    (c.validate = .ok () ∧ ∀ f : Field, f.Accepts c) ∨
      ∃ f : Field, ¬f.Accepts c ∧ (∀ g ∈ Field.all.takeWhile (· ≠ f), g.Accepts c) ∧
        ∀ e, c.validate = .error (f.error e) := by
  by_cases hdirectory : c.directory = []
  case pos =>
    refine .inr ⟨.directory, not_not_intro hdirectory, by simp [Field.all, Field.Accepts],
      fun e => ?_⟩
    rw [validate, if_pos hdirectory]
    rfl
  cases hkms : c.kms with
  | none =>
    refine .inl ⟨?_, fun f => ?_⟩
    · rw [validate, if_neg hdirectory, hkms]
    · cases f <;> simp [Field.Accepts, hkms, hdirectory]
  | some k =>
    have hvalidate : c.validate = k.validate := by
      rw [validate, if_neg hdirectory, hkms]
    by_cases hkey : Text.trim k.key.toList = []
    case pos =>
      have hblank := Text.trim_eq_nil_iff.1 hkey
      refine .inr ⟨.key, fun haccepts => ?_, by simp [Field.all, Field.Accepts, hdirectory],
        fun e => ?_⟩
      · obtain ⟨d, hd, hno⟩ := haccepts k hkms
        cases (hblank d hd).symm.trans hno
      · rw [hvalidate, Kms.validate, if_pos hkey]
        rfl
    have haccepts : Field.key.Accepts c := by
      rintro k' hk'
      obtain rfl := Option.some.inj (hkms.symm.trans hk')
      simpa using mt Text.trim_eq_nil_iff.2 hkey
    by_cases hkeyFile : k.keyFile = []
    case pos =>
      refine .inr ⟨.keyFile, fun haccepts => haccepts k hkms hkeyFile, ?_, fun e => ?_⟩
      · simpa [Field.all, hdirectory, Field.Accepts] using haccepts
      · rw [hvalidate, Kms.validate, if_neg hkey, if_pos hkeyFile]
        rfl
    · refine .inl ⟨?_, fun f => ?_⟩
      · rw [hvalidate, Kms.validate, if_neg hkey, if_neg hkeyFile]
      · cases f with
        | key => exact haccepts
        | _ => simp [Field.Accepts, hkms, hdirectory, hkeyFile]

/-- A configuration is valid if all its fields have values that are accepted. -/
theorem validate_eq_ok_iff : c.validate = .ok () ↔ ∀ f : Field, f.Accepts c := by
  rcases validate_cases c with ⟨hvalid, haccepts⟩ | ⟨f, hrefused, -, herror⟩
  · exact iff_of_true hvalid haccepts
  · refine iff_of_false (fun hvalid => ?_) fun haccepts => hrefused (haccepts f)
    cases (herror ⟨[], none⟩).symm.trans hvalid

/-! ### The files -/

variable {e' : Environment} {c' : Config} {d : Disk} {directory : String} {path : Option String}

/-- The file that is read is the one that is asked for, or the one in the configuration
directory. -/
theorem ofFiles_of_pathExists
    (h : d.pathExists (path.getD (Path.join directory fileName)) = true) :
    ofFiles d directory path = readFile d (path.getD (Path.join directory fileName)) := by
  cases path with
  | none => exact if_pos h
  | some path => exact if_pos h

/-- A file that is asked for must exist. -/
theorem ofFiles_of_missing {file : String} (h : d.pathExists file = false) :
    ofFiles d directory (some file) = .error (.configNotFound file) := if_neg (by simp [h])

/-- The one in the configuration directory need not. -/
theorem ofFiles_of_none (h : d.pathExists (Path.join directory fileName) = false) :
    ofFiles d directory none = .ok standard := if_neg (by simp [h])

theorem readFile_eq_ok_iff {file : String} : readFile d file = .ok F ↔
    ∃ content text, d.read file = .ok content ∧ Text.Utf8.decode? content = some text ∧
      ofText text = .ok F := by
  unfold readFile
  cases d.read file with
  | error fault => simp
  | ok content =>
    dsimp only
    cases htext : Text.Utf8.decode? content <;> simp [htext]

/-- **What the files give.** They give what the file says that is asked for, or else the one in the
configuration directory; only where there is none, and none is asked for, they give the standard
values. -/
theorem ofFiles_eq_ok_iff : ofFiles d directory path = .ok F ↔
    (∃ content text, d.read (path.getD (Path.join directory fileName)) = .ok content ∧
      Text.Utf8.decode? content = some text ∧ ofText text = .ok F) ∨
    path = none ∧ d.pathExists (Path.join directory fileName) = false ∧ F = standard := by
  rw [← readFile_eq_ok_iff]
  cases hexists : d.pathExists (path.getD (Path.join directory fileName)) with
  | true =>
    rw [ofFiles_of_pathExists hexists]
    refine ⟨.inl, ?_⟩
    rintro (hread | ⟨rfl, hnone, -⟩)
    · exact hread
    · cases hexists.symm.trans hnone
  | false =>
    have hread (F : Config) : readFile d (path.getD (Path.join directory fileName)) ≠ .ok F := by
      intro hread
      obtain ⟨content, -, hcontent, -⟩ := readFile_eq_ok_iff.1 hread
      cases hexists.symm.trans (Disk.pathExists_of_read hcontent)
    cases path with
    | none =>
      have hnone : d.pathExists (Path.join directory fileName) = false := hexists
      rw [ofFiles_of_none hnone, Except.ok.injEq, or_iff_right (hread F)]
      exact ⟨fun h => ⟨rfl, hnone, h.symm⟩, fun h => h.2.2.symm⟩
    | some file =>
      have hfile : d.pathExists file = false := hexists
      rw [ofFiles_of_missing hfile]
      refine iff_of_false nofun ?_
      rintro (h | ⟨h, -⟩)
      · exact hread F h
      · cases h

/-- They fail if the file that is asked for does not exist, or if the file that is to be read cannot
be, or says something wrong. -/
theorem ofFiles_eq_error_iff {error : Error} : ofFiles d directory path = .error error ↔
    (∃ file, path = some file ∧ d.pathExists file = false ∧ error = .configNotFound file) ∨
    d.pathExists (path.getD (Path.join directory fileName)) = true ∧
      readFile d (path.getD (Path.join directory fileName)) = .error error := by
  cases hexists : d.pathExists (path.getD (Path.join directory fileName)) with
  | true =>
    rw [ofFiles_of_pathExists hexists]
    refine ⟨fun hread => .inr ⟨rfl, hread⟩, ?_⟩
    rintro (⟨file, rfl, hnone, -⟩ | ⟨-, hread⟩)
    · cases hexists.symm.trans hnone
    · exact hread
  | false =>
    cases path with
    | none =>
      have hnone : d.pathExists (Path.join directory fileName) = false := hexists
      rw [ofFiles_of_none hnone]
      exact iff_of_false nofun (by simp)
    | some file =>
      have hfile : d.pathExists file = false := hexists
      rw [ofFiles_of_missing hfile, Except.error.injEq]
      constructor
      · rintro rfl
        exact .inl ⟨file, rfl, hfile, rfl⟩
      · rintro (⟨_, ⟨⟩, -, rfl⟩ | ⟨h, -⟩)
        · rfl
        · cases h

/-! ### Loading -/

/-- **Loading** what the files say ends with a configuration that is overridden and valid, or with
the first faulty field. -/
theorem load_cases (e : Environment) (hF : ofFiles d directory path = .ok F) :
    (∃ c, load d e directory path = .ok c ∧ (∀ f : Field, f.From e F c) ∧ c.validate = .ok ()) ∨
      ∃ f : Field, f.IsFirst e F ∧ load d e directory path = .error (f.error e) := by
  unfold load
  simp only [bind, Except.bind, hF]
  rcases override_cases e F with ⟨c, hoverride, hfrom⟩ | ⟨f, hfirst, hoverride⟩
  · simp only [hoverride]
    -- all fields have values by now, so that only what is not accepted is faulty
    rcases validate_cases c with ⟨hvalid, -⟩ | ⟨f, hrefused, hbefore, herror⟩
    · refine .inl ⟨c, ?_, hfrom, hvalid⟩
      simp only [hvalid]
      rfl
    · refine .inr ⟨f, ⟨(hfrom f).faulty_iff.2 hrefused, fun g hg hfaulty => ?_⟩, ?_⟩
      · exact (hfrom g).faulty_iff.1 hfaulty (hbefore g hg)
      · simp only [herror e]
  · refine .inr ⟨f, hfirst, ?_⟩
    simp only [hoverride]

/-- No field of an overridden, valid configuration is faulty. -/
theorem Field.IsFirst.not_valid (h : f.IsFirst e F) (hfrom : ∀ f : Field, f.From e F c) :
    c.validate ≠ .ok () := fun hvalid =>
  (hfrom f).faulty_iff.1 h.1 (validate_eq_ok_iff.1 hvalid f)

/-- In a valid configuration, a part of how secrets are encrypted is missing only if neither `F` nor
its own variable says it: with the other variable alone it would be empty. -/
theorem Field.kms_eq_none_iff_of_valid (hfrom : ∀ f : Field, f.From e F c)
    (hvalid : c.validate = .ok ()) (hf : f = .key ∨ f = .keyFile) :
    c.kms = none ↔ F.kms = none ∧ e.text? f.variableName = none := by
  rw [(hfrom f).kms hf]
  constructor
  · rintro ⟨hF, hkey, hkeyFile⟩
    rcases hf with rfl | rfl
    · exact ⟨hF, hkey⟩
    · exact ⟨hF, hkeyFile⟩
  · rintro ⟨hF, hunset⟩
    rw [← (hfrom f).kms hf]
    by_contra hsome
    obtain ⟨k, hk⟩ := Option.ne_none_iff_exists'.1 hsome
    -- then the other variable is set, and this part is empty
    have haccepts := validate_eq_ok_iff.1 hvalid f
    have hkeeps := (hfrom f).unset hunset
    rcases hf with rfl | rfl
    · obtain ⟨d, hd, -⟩ := haccepts k hk
      have hempty : k.key = "" := by simpa [hF] using hkeeps k hk
      simp [hempty] at hd
    · have hempty : k.keyFile = [] := by simpa [hF] using hkeeps k hk
      exact haccepts k hk hempty

/-- Valid configurations have the same value of a field if its variable is the same. -/
theorem Field.same_of_valid (hfrom : ∀ f : Field, f.From e F c) (hvalid : c.validate = .ok ())
    (hfrom' : ∀ f : Field, f.From e' F c') (hvalid' : c'.validate = .ok ())
    (htext : e.text? f.variableName = e'.text? f.variableName) : f.Same c c' := by
  refine (hfrom f).same_of_eq (hfrom' f) htext fun hf => ?_
  rw [kms_eq_none_iff_of_valid hfrom hvalid hf, kms_eq_none_iff_of_valid hfrom' hvalid' hf, htext]

/-- A configuration is loaded if it has the values of the variables, or those of the files, and is
valid. -/
theorem load_eq_ok_iff : load d e directory path = .ok c ↔ ∃ F, ofFiles d directory path = .ok F ∧
    (∀ f : Field, f.From e F c) ∧ c.validate = .ok () := by
  cases hF : ofFiles d directory path with
  | error error => simp [load, bind, Except.bind, hF]
  | ok F =>
    simp only [Except.ok.injEq, exists_eq_left']
    rcases load_cases e hF with ⟨c', hload, hfrom', hvalid'⟩ | ⟨f, hfirst, hload⟩
    · rw [hload, Except.ok.injEq]
      constructor
      · rintro rfl
        exact ⟨hfrom', hvalid'⟩
      · rintro ⟨hfrom, -⟩
        exact Field.eq_of_same fun f => (hfrom' f).same (hfrom f)
    · rw [hload]
      refine iff_of_false nofun ?_
      rintro ⟨hfrom, hvalid⟩
      exact hfirst.not_valid hfrom hvalid

/-- Loading fails if reading the files does, or else for the first faulty field. -/
theorem load_eq_error_iff {error : Error} : load d e directory path = .error error ↔
    ofFiles d directory path = .error error ∨ ∃ F, ofFiles d directory path = .ok F ∧
      ∃ f : Field, f.IsFirst e F ∧ error = f.error e := by
  cases hF : ofFiles d directory path with
  | error fault => simp [load, bind, Except.bind, hF]
  | ok F =>
    simp only [reduceCtorEq, false_or, Except.ok.injEq, exists_eq_left']
    rcases load_cases e hF with ⟨c, hload, hfrom, hvalid⟩ | ⟨f, hfirst, hload⟩
    · rw [hload]
      refine iff_of_false nofun ?_
      rintro ⟨f, hfirst, -⟩
      exact hfirst.not_valid hfrom hvalid
    · rw [hload, Except.error.injEq]
      constructor
      · rintro rfl
        exact ⟨f, hfirst, rfl⟩
      · rintro ⟨g, hfirst', rfl⟩
        rw [hfirst.unique hfirst']

/-- **Configurations are put together field by field.** Loading ends with exactly the configuration
whose fields have the values of their variables, or else those that were read of the files, if these
values exist and are valid. It fails with what is wrong with the files, or else with what is wrong
with the first field that has no value that is accepted. A change of one variable, as long as
loading succeeds, leaves all fields but its own. -/
theorem load_fieldwise (d : Disk) (e : Environment) (directory : String) (path : Option String) :
    (∀ c, load d e directory path = .ok c ↔ ∃ F, ofFiles d directory path = .ok F ∧
      (∀ f : Field, f.From e F c) ∧ c.validate = .ok ()) ∧
    (∀ c : Config, c.validate = .ok () ↔ ∀ f : Field, f.Accepts c) ∧
    (∀ error, load d e directory path = .error error ↔
      ofFiles d directory path = .error error ∨ ∃ F, ofFiles d directory path = .ok F ∧
        ∃ f : Field, f.IsFirst e F ∧ error = f.error e) ∧
    ∀ (e' : Environment) (f : Field) (c c' : Config),
      (∀ g, g ≠ f → e.text? g.variableName = e'.text? g.variableName) →
      load d e directory path = .ok c → load d e' directory path = .ok c' →
      ∀ g : Field, g ≠ f → g.Same c c' := by
  refine ⟨fun c => load_eq_ok_iff, fun c => validate_eq_ok_iff, fun error => load_eq_error_iff, ?_⟩
  intro e' f c c' hagree hload hload' g hg
  obtain ⟨F, hF, hfrom, hvalid⟩ := load_eq_ok_iff.1 hload
  obtain ⟨F', hF', hfrom', hvalid'⟩ := load_eq_ok_iff.1 hload'
  -- the files do not depend on the environment
  obtain rfl := Except.ok.inj (hF.symm.trans hF')
  exact Field.same_of_valid hfrom hvalid hfrom' hvalid' (hagree g hg)

/-- A change of the expiry leaves the backend that another variable sets, and the other expiry that
the file gives. -/
theorem load_fieldwise_expiry :
    let d := (Disk.empty [] 0).put ["config.yaml"]
      (.file 0o644 (Text.Utf8.ofString "cache:\n  expiry_secs: 5\n  expiry_unused_secs: 60\n"))
    let e (expiry : String) : Environment :=
      ⟨[("KEYHOLD_STORE_BACKEND", Text.Utf8.ofString "MEM"),
        ("KEYHOLD_CACHE_EXPIRY_SECS", Text.Utf8.ofString expiry)], none⟩
    let F : Config := ⟨.files, defaultDirectory, 5, 60, none⟩
    let c : Config := ⟨.memory, defaultDirectory, 30, 60, none⟩
    let c' : Config := ⟨.memory, defaultDirectory, 7, 60, none⟩
    ofFiles d "/" none = .ok F ∧ load d (e "+30") "/" none = .ok c ∧
      load d (e "7") "/" none = .ok c' ∧ c ≠ c' ∧ ∀ f : Field, f ≠ .expiry → f.Same c c' := by
  intro d e F c c'
  have hfiles : ofFiles d "/" none = .ok F := by decide +kernel
  have hload : load d (e "+30") "/" none = .ok c := by decide +kernel
  have hload' : load d (e "7") "/" none = .ok c' := by decide +kernel
  have hagree (f : Field) (hf : f ≠ .expiry) :
      (e "+30").text? f.variableName = (e "7").text? f.variableName := by
    cases f with
    | expiry => exact absurd rfl hf
    | _ => decide +kernel
  obtain ⟨-, -, -, hchange⟩ := load_fieldwise d (e "+30") "/" none
  exact ⟨hfiles, hload, hload', by decide, hchange (e "7") .expiry c c' hagree hload hload'⟩

end Keyring.Config
