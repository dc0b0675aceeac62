import Keyring.CommandLine.Run
import Keyring.Proofs.Config.Precedence
import Keyring.Proofs.Config.Sections
import Keyring.Proofs.Disk.Files
import Keyring.Proofs.Text.Lossy
import Keyring.Proofs.Yaml.Number

/-!
# A shown configuration loads back

A configuration is shown as a document of sections. Every text in it is written in a style in which
it is read back, and every number in its digits, so the document says what the configuration says,
and a file that holds it is loaded as that configuration.

- `sections`, `toYaml_eq`: the sections of a configuration, and the document that is shown;
- `reads_sections`: each of them is read as it is meant;
- `asShown`, `ofText_toYaml`: what is read of the document;
- `shown_loads_back`: what is loaded of a file that holds it.
-/

namespace Keyring.Config

open Yaml
open Text (Utf8.ofString)

variable {c : Config} {d : Disk} {e : Environment}

/-! ### What is shown -/

/-- A text as a member. -/
def textMember (name text : String) : Member :=
  ⟨name, yamlText text, ⟨ScalarWriter.style text.toList, text.toList⟩⟩

/-- A number as a member. -/
def numberMember (name : String) (n : UInt64) : Member :=
  ⟨name, yamlNumber n, ⟨.plain, Nat.toDigits 10 n.toNat⟩⟩

/-- The section on storage. -/
def storeSection (c : Config) : Section :=
  ⟨"store", [textMember "backend" c.backend.name, textMember "dir" (pathText c.directory)]⟩

/-- The section on the cache. -/
def cacheSection (c : Config) : Section :=
  ⟨"cache", [numberMember "expiry_secs" c.expirySeconds,
    numberMember "expiry_unused_secs" c.unusedExpirySeconds]⟩

/-- The section on encryption. -/
def kmsSection (k : Kms) : Section :=
  ⟨"kms", [textMember "key" k.key, textMember "key_file" (pathText k.keyFile)]⟩

/-- The sections of a configuration. -/
def sections (c : Config) : List Section :=
  c.storeSection :: c.cacheSection :: c.kms.toList.map kmsSection

/-- A section is written as its members are. -/
theorem yamlSection_eq_text (s : Section) :
    yamlSection s.name (s.members.map fun m => (m.name, m.lines)) = s.text := by
  rw [yamlSection, Section.text, List.flatMap_map]
  rfl

/-- What is shown is the document of the sections. -/
theorem toYaml_eq (c : Config) :
    c.toYaml = documentText c.sections (needsEndMarker c.shownTexts) := by
  have hstore : yamlSection "store" [("backend", yamlText c.backend.name),
      ("dir", yamlText (pathText c.directory))] = c.storeSection.text :=
    yamlSection_eq_text c.storeSection
  have hcache : yamlSection "cache" [("expiry_secs", yamlNumber c.expirySeconds),
      ("expiry_unused_secs", yamlNumber c.unusedExpirySeconds)] = c.cacheSection.text :=
    yamlSection_eq_text c.cacheSection
  have hkms (k : Kms) : yamlSection "kms" [("key", yamlText k.key),
      ("key_file", yamlText (pathText k.keyFile))] = (kmsSection k).text :=
    yamlSection_eq_text (kmsSection k)
  rw [toYaml, documentText, sections, hstore, hcache, ending, List.flatMap_cons, List.flatMap_cons,
    List.append_assoc c.storeSection.text]
  cases c.kms with
  | none => rfl
  | some k => simp only [hkms, Option.toList_some, List.map_singleton, List.flatMap_singleton]

theorem reads_textMember {name : String} (h : Lexer.isKey name.toList = true) (text : String) :
    (textMember name text).Reads :=
  ⟨h, Lexer.shows_line (by decide) text.toList, fun _ => ScalarWriter.isPrintable_of_mem_line⟩

theorem reads_numberMember {name : String} (h : Lexer.isKey name.toList = true) (n : UInt64) :
    (numberMember name n).Reads := by
  have hdigits := isDigit_toDigits n.toNat
  have hplain := Yaml.canBePlain_of_isDigit hdigits
  have hlines : (numberMember name n).lines = Nat.toDigits 10 n.toNat ++ ['\n'] := by
    rw [numberMember, yamlNumber, Nat.toString_eq_ofList_toDigits, String.toList_ofList]
  refine ⟨h, ?_, ?_⟩
  · rw [hlines]
    exact Lexer.shows_plain hplain Nat.toDigits_ne_nil
  · intro c hc
    rw [hlines, List.mem_append, List.mem_singleton] at hc
    rcases hc with hc | rfl
    · exact (digit_plain (hdigits c hc)).1
    · decide

/-- A section of two members that are read as they are meant. -/
theorem reads_pair {name : String} {m n : Member} (h : Lexer.isKey name.toList = true)
    (hm : m.Reads) (hn : n.Reads) : (⟨name, [m, n]⟩ : Section).Reads := by
  refine ⟨h, List.cons_ne_nil m [n], ?_⟩
  rw [List.forall_mem_cons, List.forall_mem_singleton]
  exact ⟨hm, hn⟩

/-- Every section of a configuration is read as it is meant. -/
theorem reads_sections (c : Config) : ∀ s ∈ c.sections, s.Reads := by
  simp only [sections, List.forall_mem_cons, List.forall_mem_map]
  refine ⟨?_, ?_, fun k _ => ?_⟩
  · exact reads_pair (by decide) (reads_textMember (by decide) _) (reads_textMember (by decide) _)
  · exact reads_pair (by decide) (reads_numberMember (by decide) _)
      (reads_numberMember (by decide) _)
  · exact reads_pair (by decide) (reads_textMember (by decide) _) (reads_textMember (by decide) _)

/-! ### What is read -/

/-- The members of a section by their names. -/
def Section.named (s : Section) : List (List Char × Value) :=
  s.members.map fun m => (m.name.toList, .scalar none m.scalar)

section

variable {α : Type} {members : List (List Char × Value)} {name : String} {value : Value}
  {standard : α} {read : Value → Option α}

theorem memberOr?_of_member? (h : member? members name = some (some value)) :
    memberOr? members name standard read = read value := by
  rw [memberOr?, h]

theorem requiredMember?_of_member? (h : member? members name = some (some value)) :
    requiredMember? members name read = read value := by
  rw [requiredMember?, h, Option.join_some, Option.bind_some]

end

/-- The members of a mapping whose keys are names. -/
theorem members?_mapping {α : Type} (d : Document) (name : α → String) (value : α → Value)
    (entries : List α) :
    members? d (.mapping none (entries.map fun x => (nameValue (name x), value x))) =
      some (entries.map fun x => ((name x).toList, value x)) := by
  show List.mapM _ (entries.map fun x => (nameValue (name x), value x)) = _
  rw [List.mapM_map]
  exact List.mapM_pure

theorem members?_section (d : Document) (s : Section) : members? d s.values.2 = some s.named :=
  members?_mapping d Member.name (fun m => .scalar none m.scalar) s.members

theorem members?_sections (d : Document) (sections : List Section) :
    members? d (.mapping none (sections.map Section.values)) =
      some (sections.map fun s => (s.name.toList, s.values.2)) :=
  members?_mapping d Section.name (fun s => s.values.2) sections

theorem backendIn?_name (d : Document) (b : BackendKind) :
    backendIn? d (.scalar none (textMember "backend" b.name).scalar) = some b := by
  cases b <;> rfl

theorem stringIn?_text (d : Document) (name text : String) :
    stringIn? d (.scalar none (textMember name text).scalar) = some text :=
  congrArg some String.ofList_toList

theorem pathIn?_text (d : Document) (name text : String) :
    pathIn? d (.scalar none (textMember name text).scalar) = some (Utf8.ofString text) := rfl

theorem secondsIn?_number (d : Document) (name : String) (n : UInt64) :
    secondsIn? d (.scalar none (numberMember name n).scalar) = some n := by
  -- the bound is the one that every such number keeps
  have hread : Yaml.natural? (Nat.pow 2 64) (Nat.toDigits 10 n.toNat) = some n.toNat :=
    natural?_toDigits n.toNat_lt
  simp [secondsIn?, Document.resolve, numberMember, hread]

theorem storeIn?_storeSection (d : Document) (c : Config) : storeIn? d c.storeSection.values.2 =
    some (c.backend, Utf8.ofString (pathText c.directory)) := by
  have hbackend : member? c.storeSection.named "backend" =
      some (some (.scalar none (textMember "backend" c.backend.name).scalar)) := by
    simp [Section.named, member?, storeSection, textMember]
  have hdirectory : member? c.storeSection.named "dir" =
      some (some (.scalar none (textMember "dir" (pathText c.directory)).scalar)) := by
    simp [Section.named, member?, storeSection, textMember]
  simp only [storeIn?, members?_section, memberOr?_of_member? hbackend,
    memberOr?_of_member? hdirectory, backendIn?_name, pathIn?_text, Option.bind_eq_bind,
    Option.bind_some, Option.pure_def]

theorem cacheIn?_cacheSection (d : Document) (c : Config) : cacheIn? d c.cacheSection.values.2 =
    some (c.expirySeconds, c.unusedExpirySeconds) := by
  have hexpiry : member? c.cacheSection.named "expiry_secs" =
      some (some (.scalar none (numberMember "expiry_secs" c.expirySeconds).scalar)) := by
    simp [Section.named, member?, cacheSection, numberMember]
  have hunused : member? c.cacheSection.named "expiry_unused_secs" =
      some (some (.scalar none
        (numberMember "expiry_unused_secs" c.unusedExpirySeconds).scalar)) := by
    simp [Section.named, member?, cacheSection, numberMember]
  simp only [cacheIn?, members?_section, memberOr?_of_member? hexpiry, memberOr?_of_member? hunused,
    secondsIn?_number, Option.bind_eq_bind, Option.bind_some, Option.pure_def]

theorem kmsIn?_kmsSection (d : Document) (k : Kms) : kmsIn? d (kmsSection k).values.2 =
    some (some ⟨k.key, Utf8.ofString (pathText k.keyFile)⟩) := by
  have hthere : isMissing? d (kmsSection k).values.2 = some false := rfl
  have hkey : member? (kmsSection k).named "key" =
      some (some (.scalar none (textMember "key" k.key).scalar)) := by
    simp [Section.named, member?, kmsSection, textMember]
  have hkeyFile : member? (kmsSection k).named "key_file" =
      some (some (.scalar none (textMember "key_file" (pathText k.keyFile)).scalar)) := by
    simp [Section.named, member?, kmsSection, textMember]
  simp only [kmsIn?, hthere, members?_section, requiredMember?_of_member? hkey,
    requiredMember?_of_member? hkeyFile, stringIn?_text, pathIn?_text, Option.bind_eq_bind,
    Option.bind_some, Option.pure_def, Bool.false_eq_true, if_false]

/-- A configuration whose paths are the texts that are shown of them. -/
def asShown (c : Config) : Config where
  backend := c.backend
  directory := Utf8.ofString (pathText c.directory)
  expirySeconds := c.expirySeconds
  unusedExpirySeconds := c.unusedExpirySeconds
  kms := c.kms.map fun k => ⟨k.key, Utf8.ofString (pathText k.keyFile)⟩

/-- The sections say what the configuration says, with its paths as they are shown. -/
theorem ofDocument?_sections (c : Config) (anchors : Anchors) :
    ofDocument? ⟨.mapping none (c.sections.map Section.values), anchors⟩ = some c.asShown := by
  -- no value is an alias, so that nothing depends on the document
  generalize hd : (⟨.mapping none (c.sections.map Section.values), anchors⟩ : Document) = d
  have hmembers : members? d d.root =
      some (c.sections.map fun s => (s.name.toList, s.values.2)) := by
    rw [← hd]
    exact members?_sections _ c.sections
  have hstore : member? (c.sections.map fun s => (s.name.toList, s.values.2)) "store" =
      some (some c.storeSection.values.2) := by
    cases hkms : c.kms <;> simp [sections, hkms, member?, storeSection, cacheSection, kmsSection]
  have hcache : member? (c.sections.map fun s => (s.name.toList, s.values.2)) "cache" =
      some (some c.cacheSection.values.2) := by
    cases hkms : c.kms <;> simp [sections, hkms, member?, storeSection, cacheSection, kmsSection]
  have hkms : member? (c.sections.map fun s => (s.name.toList, s.values.2)) "kms" =
      some (c.kms.map fun k => (kmsSection k).values.2) := by
    cases hkms : c.kms <;> simp [sections, hkms, member?, storeSection, cacheSection, kmsSection]
  simp only [ofDocument?, hmembers, memberOr?_of_member? hstore, memberOr?_of_member? hcache,
    storeIn?_storeSection, cacheIn?_cacheSection, Option.bind_eq_bind, Option.bind_some,
    Option.pure_def]
  -- a section that is left out is read as none
  cases h : c.kms with
  | none =>
    rw [h] at hkms
    simp only [memberOr?, hkms, Option.map_none, standard, Option.bind_some, asShown, h]
  | some k =>
    rw [h] at hkms
    simp only [memberOr?_of_member? hkms, kmsIn?_kmsSection, Option.map_some, Option.bind_some,
      asShown, h]

/-- What is read of a configuration that is shown. -/
theorem ofText_toYaml (c : Config) : ofText c.toYaml = .ok c.asShown := by
  have hparse := parse?_sections (reads_sections c) (List.cons_ne_nil _ _)
    (needsEndMarker c.shownTexts)
  rw [ofText, toYaml_eq, hparse, Option.bind_some, ofDocument?_sections]

/-! ### Loading -/

/-- The paths of a configuration are texts. -/
structure PathsAreText (c : Config) : Prop where
  /-- The directory is. -/
  directory : ∃ text, c.directory = Utf8.ofString text
  /-- The path of the master key file is. -/
  keyFile : ∀ k ∈ c.kms, ∃ text, k.keyFile = Utf8.ofString text

/-- Paths that are texts are shown as they are. -/
theorem PathsAreText.asShown_eq (h : c.PathsAreText) : c.asShown = c := by
  obtain ⟨text, hdirectory⟩ := h.directory
  have hpath : Utf8.ofString (pathText c.directory) = c.directory := by
    rw [hdirectory, pathText_ofString]
  have hkms : c.kms.map (fun k => (⟨k.key, Utf8.ofString (pathText k.keyFile)⟩ : Kms)) = c.kms := by
    cases hkms : c.kms with
    | none => rfl
    | some k =>
      obtain ⟨text, hkeyFile⟩ := h.keyFile k hkms
      rw [Option.map_some, hkeyFile, pathText_ofString, ← hkeyFile]
  rw [asShown, hpath, hkms]

/-- Where no variable is set, every field has the value of the files. -/
theorem Field.from_self (h : ∀ f : Field, e.text? f.variableName = none) (c : Config) (f : Field) :
    f.From e c c := by
  refine ⟨fun text hset => ?_, fun _ => ?_, fun _ => ?_⟩
  · rw [h f] at hset
    cases hset
  · cases f with
    | key | keyFile =>
      intro k hk
      rw [Option.mem_def.1 hk, Option.map_some, Option.getD_some]
    | _ => rfl
  · exact ⟨fun hnone => ⟨hnone, h .key, h .keyFile⟩, And.left⟩

/-- **A shown configuration loads back.** A file that holds what is shown of a configuration is
loaded as this configuration, if it is valid, its paths are texts and no variable is set. -/
theorem shown_loads_back {directory : String} {path : Option String} (hvalid : c.validate = .ok ())
    (htext : c.PathsAreText) (hunset : ∀ f : Field, e.text? f.variableName = none)
    (hfile : d.read (path.getD (Path.join directory fileName)) =
      .ok (Utf8.ofString (CommandLine.reportConfig c false).stdout)) :
    load d e directory path = .ok c := by
  -- what the file holds is text, and what it says is what was shown
  have hread : readFile d (path.getD (Path.join directory fileName)) = .ok c := by
    have hshown : (CommandLine.reportConfig c false).stdout.toList = c.toYaml :=
      String.toList_ofList
    simp only [readFile, hfile, Utf8.ofString, hshown, Text.Utf8.decode?_encode]
    rw [ofText_toYaml, htext.asShown_eq]
  have hfiles := (ofFiles_of_pathExists (Disk.pathExists_of_read hfile)).trans hread
  exact load_eq_ok_iff.2 ⟨c, hfiles, Field.from_self hunset c, hvalid⟩

/-- The texts look like other values, or are written in several lines. -/
theorem shown_loads_back_null :
    let c : Config := ⟨.memory, Utf8.ofString " ~\n'\"\t", 0, 18446744073709551615,
      some ⟨"null", Utf8.ofString "true\n\n"⟩⟩
    let d := (Disk.empty [] 0).put ["config.yaml"]
      (.file 0o644 (Utf8.ofString (CommandLine.reportConfig c false).stdout))
    c.validate = .ok () ∧ load d ⟨[], none⟩ "/" none = .ok c := by
  intro c d
  have hvalid : c.validate = .ok () := by decide +kernel
  have htext : c.PathsAreText := by
    refine ⟨⟨_, rfl⟩, ?_⟩
    rintro k ⟨⟩
    exact ⟨_, rfl⟩
  have hlocate : (Disk.empty [] 0).locate (Path.join "/" fileName) =
      .ok (.entry [] "config.yaml" false) := by decide +kernel
  have hnew : (Disk.empty [] 0).find? ["config.yaml"] = none := rfl
  have hfile := Disk.read_put hlocate (by simp) (by simp [Target.location, hnew]) 0o644
    (Utf8.ofString (CommandLine.reportConfig c false).stdout)
  exact ⟨hvalid, shown_loads_back hvalid htext (fun _ => rfl) hfile⟩

end Keyring.Config
