import Keyring.CommandLine.Run
import Keyring.Proofs.Store.Opening

/-!
# Processes that share nothing but a disk

Every command on a key is a process of its own, which opens the store, makes one call and ends. What
processes share is the disk, and as long as they resolve one configuration that is enough: in
whatever number and order they are run, they act on one map from names to secrets. What they print
to the standard output is what the map says, and a process that fails prints nothing there.

- `Process`, `runAll`: processes that are run one after the other;
- `Session`: each of them runs a command on a key under one configuration;
- `Command.onMap`: the same command on a map;
- `Report.Tells`: success or failure, and what is printed, as a report has them;
- `onKey_tells`: what a command does on a store whose call ends as on a map;
- `processes_act_as_map`: so do all processes of a session.
-/

namespace Keyring.CommandLine

/-- A process of the program. -/
structure Process where
  /-- Its environment. -/
  environment : Environment
  /-- What is random in it. -/
  random : Randomness
  /-- Its arguments. -/
  arguments : List String

/-- Run a process on a disk. -/
def Process.run (p : Process) (d : Disk) : Disk × Report :=
  CommandLine.run d p.environment p.random p.arguments

/-- Run processes one after the other. -/
def runAll (d : Disk) : List Process → Disk × List Report
  | [] => (d, [])
  | p :: processes =>
    let (d, report) := p.run d
    let (d, reports) := runAll d processes
    (d, report :: reports)

/-- A command on a key, with the material of a new one in hexadecimal digits. -/
def Command.IsOnKey : Command → Prop
  | .create _ (.hex _) | .get _ | .delete _ => True
  | _ => False

/-- The call that such a command makes, unless the digits are no secret. -/
def Command.call? : Command → Option (String × Operation)
  | .create name (.hex digits) =>
    (Secret.parse digits.toList).toOption.map fun secret => (name, .create secret)
  | .get name => some (name, .get)
  | .delete name => some (name, .delete)
  | _ => none

/-- What such a command prints on a map if it succeeds there, and the map then. -/
def Command.onMap (m : Store.SecretMap) : Command → Option String × Store.SecretMap
  | .create name (.hex digits) =>
    match Secret.parse digits.toList with
    | .ok secret =>
      if KeyName.Valid name ∧ m name = none then
        (some "", Function.update m name (some secret))
      else (none, m)
    | .error _ => (none, m)
  | .get name =>
    (if KeyName.Valid name then (m name).map fun secret => secret.toHex ++ "\n" else none, m)
  | .delete name =>
    if KeyName.Valid name then (some "", Function.update m name none) else (none, m)
  | _ => (none, m)

/-- What commands print on a map, one after the other, and the map then. -/
def onMapAll (m : Store.SecretMap) : List Command → List (Option String) × Store.SecretMap
  | [] => ([], m)
  | command :: commands =>
    let (printed, m) := command.onMap m
    let (rest, m) := onMapAll m commands
    (printed :: rest, m)

/-- A report tells of success with what was printed to the standard output, or of failure with
nothing there. -/
def Report.Tells (r : Report) : Option String → Prop
  | some printed => r.code = 0 ∧ r.stdout = printed
  | none => r.code = 1 ∧ r.stdout = ""

/-- A process runs a command on a key: its arguments are accepted, it resolves a configuration, and
the record of a key that it is to create has room. -/
structure Process.Runs (c : Config) (home : Option String) (keys : MasterKeys) (d : Disk)
    (p : Process) (command : Command) : Prop where
  isOnKey : command.IsOnKey
  home : p.environment.home? = home
  resolves : ∃ configFile, Request.ofArguments p.arguments = .ok (.run configFile command) ∧
    loadConfig d p.environment configFile = .ok c
  room : c.backend = .files → ∀ name secret, command.call? = some (name, .create secret) →
    KeyName.Valid name → c.RoomFor keys p.random.nonce secret

/-- Processes that are run one after the other, each with its command. -/
inductive Session (c : Config) (home : Option String) (keys : MasterKeys) :
    Disk → List Process → List Command → Prop where
  | done (d : Disk) : Session c home keys d [] []
  | cons {d : Disk} {p : Process} {processes : List Process} {command : Command}
    {commands : List Command} (hrun : p.Runs c home keys d command)
    (hnext : Session c home keys (p.run d).1 processes commands) :
    Session c home keys d (p :: processes) (command :: commands)

section

variable {c : Config} {home : Option String} {keys : MasterKeys} {d : Disk} {p : Process}
  {processes : List Process} {command : Command} {commands : List Command}
  {m : Store.SecretMap} {s t : Store} {nonce : Cipher.Nonce} {name verb : String}
  {operation : Operation} {outcome : Outcome} {random : Randomness} {printed : Option String}
  {r : Report} {succeeded : Answer → Report}

/-! ### Reports -/

theorem Report.tells_failed (cause : String) : (failed cause).Tells none := ⟨rfl, rfl⟩

theorem Report.Tells.after (h : r.Tells printed) (before : String) :
    (r.after before).Tells printed := by
  cases printed <;> exact h

/-- What is reported of a call that has ended. -/
theorem reportCall_eq (h : s.runAlone keys nonce 0 name operation = (some outcome, t))
    (verb : String) (succeeded : Answer → Report) :
    ∃ cause, reportCall s keys nonce verb name operation succeeded =
      (t.disk, match (outcome : Outcome) with
        | .ok answer => succeeded answer
        | .error _ => .failed cause) := by
  simp only [reportCall, h]
  cases outcome with
  | ok answer => exact ⟨"", rfl⟩
  | error error => exact ⟨_, rfl⟩

/-! ### A command on a map -/

/-- What is printed when a call ends, if it succeeds. -/
def printed? : Outcome → Option String
  | .ok .done => some ""
  | .ok (.secret secret) => some (secret.toHex ++ "\n")
  | .error _ => none

/-- Under a name that is not valid nothing is done on a map. -/
theorem exists_perform_of_not_valid (h : ¬KeyName.Valid name) (m : Store.SecretMap)
    (operation : Operation) : ∃ error, m.perform name operation = (.error error, m) := by
  unfold Store.SecretMap.perform
  split
  case h_1 error _ => exact ⟨error, rfl⟩
  case h_2 hok => exact absurd (KeyName.validate_eq_ok_iff.1 hok) h

/-- A call that is not for a secret gives none. -/
theorem eq_done_of_perform (hop : operation ≠ .get) {answer : Answer}
    (h : (m.perform name operation).1 = .ok answer) : answer = .done := by
  unfold Store.SecretMap.perform at h
  split at h
  case h_1 => cases h
  case h_2 =>
    split at h
    case h_1 => exact (Except.ok.inj h).symm
    case h_2 => cases h
    case h_3 | h_4 => exact absurd rfl hop
    case h_5 => exact (Except.ok.inj h).symm

/-- A command that makes a call does on a map what the call does. -/
theorem Command.onMap_of_call? (h : command.call? = some (name, operation)) (m : Store.SecretMap) :
    command.onMap m = (printed? (m.perform name operation).1, (m.perform name operation).2) := by
  have hinvalid (hname : ¬KeyName.Valid name) :
      (printed? (m.perform name operation).1, (m.perform name operation).2) = (none, m) := by
    obtain ⟨error, herror⟩ := exists_perform_of_not_valid hname m operation
    rw [herror]
    rfl
  cases command with
  | create n material =>
    cases material with
    | generated => cases h
    | hex digits =>
      cases hparse : Secret.parse digits.toList with
      | error fault =>
        simp only [call?, hparse] at h
        cases h
      | ok secret =>
        simp only [call?, hparse] at h
        cases h
        simp only [onMap, hparse]
        by_cases hname : KeyName.Valid name
        · cases hheld : m name with
          | none =>
            rw [Store.SecretMap.perform_create_of_none hname hheld, if_pos ⟨hname, rfl⟩]
            rfl
          | some held =>
            rw [Store.SecretMap.perform_create_of_some hname hheld, if_neg (by simp)]
            rfl
        · rw [hinvalid hname, if_neg fun h => hname h.1]
  | get n =>
    cases h
    simp only [onMap]
    by_cases hname : KeyName.Valid name
    · rw [if_pos hname]
      cases hheld : m name with
      | none =>
        rw [Store.SecretMap.perform_get_of_none hname hheld]
        rfl
      | some held =>
        rw [Store.SecretMap.perform_get_of_some hname hheld]
        rfl
    · rw [hinvalid hname, if_neg hname]
  | delete n =>
    cases h
    simp only [onMap]
    by_cases hname : KeyName.Valid name
    · rw [Store.SecretMap.perform_delete hname, if_pos hname]
      rfl
    · rw [hinvalid hname, if_neg hname]
  | generateMasterKey output force => cases h
  | showConfig json => cases h

/-! ### A command on a store -/

/-- A store makes calls as a map does: what `Holds` of the disk and the map before a call holds of
what both are afterwards, and a call that fails leaves the disk as `Left` says. -/
def ActsOn (Holds : Disk → Store.SecretMap → Prop) (Left : Disk → Prop) (s : Store)
    (keys : MasterKeys) (nonce : Cipher.Nonce) (m : Store.SecretMap) (name : String)
    (operation : Operation) : Prop :=
  ∃ t, s.runAlone keys nonce 0 name operation = (some (m.perform name operation).1, t) ∧
    Holds t.disk (m.perform name operation).2 ∧
    ∀ error, (m.perform name operation).1 = .error error → Left t.disk

section

variable {Holds : Disk → Store.SecretMap → Prop} {Left : Disk → Prop}

/-- What is reported of a call that ends as on a map. -/
theorem ActsOn.reportCall_tells (h : ActsOn Holds Left s keys nonce m name operation)
    (verb : String) (hsucceeded : ∀ answer, (m.perform name operation).1 = .ok answer →
      (succeeded answer).Tells (printed? (.ok answer))) :
    (reportCall s keys nonce verb name operation succeeded).2.Tells
        (printed? (m.perform name operation).1) ∧
      Holds (reportCall s keys nonce verb name operation succeeded).1 (m.perform name operation).2 ∧
      (printed? (m.perform name operation).1 = none →
        Left (reportCall s keys nonce verb name operation succeeded).1) := by
  obtain ⟨t, hrun, hholds, hleft⟩ := h
  obtain ⟨cause, hreport⟩ := reportCall_eq hrun verb succeeded
  rw [hreport]
  refine ⟨?_, hholds, fun hnone => ?_⟩
  · cases houtcome : (m.perform name operation).1 with
    | ok answer => exact hsucceeded answer houtcome
    | error error => exact Report.tells_failed cause
  · cases houtcome : (m.perform name operation).1 with
    | error error => exact hleft error houtcome
    | ok answer =>
      rw [houtcome] at hnone
      cases answer <;> cases hnone

/-- **A command on a key.** On a store whose call ends as on a map, a command prints what it prints
on the map, and fails where it fails there. -/
theorem onKey_tells (Holds : Disk → Store.SecretMap → Prop) (Left : Disk → Prop)
    (s : Store) (random : Randomness) (hkey : command.IsOnKey) (hholds : Holds s.disk m)
    (hleft : Left s.disk)
    (hacts : ∀ name operation, command.call? = some (name, operation) →
      ActsOn Holds Left s keys random.nonce m name operation) :
    (onKey s keys random command).2.Tells (command.onMap m).1 ∧
      Holds (onKey s keys random command).1 (command.onMap m).2 ∧
      ((command.onMap m).1 = none → Left (onKey s keys random command).1) := by
  cases command with
  | create name material =>
    cases material with
    | generated => exact hkey.elim
    | hex digits =>
      cases hparse : Secret.parse digits.toList with
      | error fault =>
        simp only [onKey, Material.secret, Command.onMap, hparse]
        exact ⟨Report.tells_failed _, hholds, fun _ => hleft⟩
      | ok secret =>
        have hcall : (Command.create name (.hex digits)).call? = some (name, .create secret) := by
          simp only [Command.call?, hparse]
          rfl
        rw [Command.onMap_of_call? hcall]
        simp only [onKey, Material.secret, hparse]
        refine (hacts _ _ hcall).reportCall_tells "create" fun answer hanswer => ?_
        rw [eq_done_of_perform (by simp) hanswer]
        exact ⟨rfl, rfl⟩
  | get name =>
    have hcall : (Command.get name).call? = some (name, .get) := rfl
    rw [Command.onMap_of_call? hcall]
    simp only [onKey]
    refine (hacts _ _ hcall).reportCall_tells "get" fun answer _ => ?_
    cases answer <;> exact ⟨rfl, rfl⟩
  | delete name =>
    have hcall : (Command.delete name).call? = some (name, .delete) := rfl
    rw [Command.onMap_of_call? hcall]
    simp only [onKey]
    refine (hacts _ _ hcall).reportCall_tells "delete" fun answer hanswer => ?_
    rw [eq_done_of_perform (by simp) hanswer]
    exact ⟨rfl, rfl⟩
  | generateMasterKey output force => exact hkey.elim
  | showConfig json => exact hkey.elim

end

/-! ### One process -/

/-- A configuration that is loaded is valid. -/
theorem validate_of_loadConfig {e : Environment} {configFile : Option String}
    (h : loadConfig d e configFile = .ok c) : c.validate = .ok () := by
  unfold loadConfig at h
  split at h
  · cases h
  · split at h
    · cases h
    case h_2 c' hload =>
      obtain rfl := Except.ok.inj h
      simp only [Config.load, bind, Except.bind, pure, Except.pure] at hload
      split at hload
      · cases hload
      · split at hload
        · cases hload
        · split at hload
          · cases hload
          case h_2 hvalid =>
            obtain rfl := Except.ok.inj hload
            exact hvalid

/-- A process opens the store of its configuration and runs its command on it. -/
theorem Process.Runs.run_eq (h : p.Runs c home keys d command)
    (hloads : c.masterKeys d home = .ok keys) :
    p.run d =
      ((onKey (Store.new (c.settings home) d 0) keys p.random command).1,
        (onKey (Store.new (c.settings home) d 0) keys p.random command).2.after
          (warningFor c)) := by
  obtain ⟨configFile, harguments, hconfig⟩ := h.resolves
  have hopen : Store.open c d p.environment.home? 0 =
      .ok (Store.new (c.settings home) d 0, keys) := by
    rw [Store.open, h.home, hloads]
  have hrun : command.run d p.environment p.random configFile =
      runOnKey d p.environment p.random configFile command := by
    have hkey := h.isOnKey
    cases command with
    | create name material => rfl
    | get name => rfl
    | delete name => rfl
    | generateMasterKey output force => exact hkey.elim
    | showConfig json => exact hkey.elim
  unfold Process.run CommandLine.run
  rw [harguments]
  dsimp only
  rw [hrun, runOnKey, hconfig]
  dsimp only
  rw [hopen]

/-- On files, a process does to the disk what its command does to the map that the disk stands
for. -/
theorem Process.Runs.acts (h : p.Runs c home keys d command) (hstands : c.Stands home keys d m)
    (hfiles : c.backend = .files) :
    (p.run d).2.Tells (command.onMap m).1 ∧
      c.Stands home keys (p.run d).1 (command.onMap m).2 ∧
      ((command.onMap m).1 = none → ∀ name,
        (Store.new (c.settings home) (p.run d).1 0).record? name =
          (Store.new (c.settings home) d 0).record? name) := by
  obtain ⟨configFile, -, hconfig⟩ := h.resolves
  rw [h.run_eq hstands.loads]
  let Same (e : Disk) : Prop := ∀ name,
    (Store.new (c.settings home) e 0).record? name = (Store.new (c.settings home) d 0).record? name
  have hacts (name : String) (operation : Operation)
      (hcall : command.call? = some (name, operation)) :
      ActsOn (c.Stands home keys) Same (Store.new (c.settings home) d 0) keys p.random.nonce m name
        operation :=
    hstands.runAlone hfiles (validate_of_loadConfig hconfig) name operation
      fun secret hop hname => h.room hfiles name secret (hop ▸ hcall) hname
  obtain ⟨htells, hstands', hleft⟩ := onKey_tells (c.Stands home keys) Same
    (Store.new (c.settings home) d 0) p.random h.isOnKey hstands (fun _ => rfl) hacts
  exact ⟨htells.after _, hstands', hleft⟩

/-- In memory, a process does what its command does on a map that holds nothing. -/
theorem Process.Runs.acts_memory (h : p.Runs c home keys d command)
    (hstands : c.Stands home keys d m) (hmemory : c.backend = .memory) :
    (p.run d).2.Tells (command.onMap fun _ => none).1 ∧ c.Stands home keys (p.run d).1 m := by
  obtain ⟨configFile, -, hconfig⟩ := h.resolves
  rw [h.run_eq hstands.loads]
  have hacts (name : String) (operation : Operation)
      (_ : command.call? = some (name, operation)) :
      ActsOn (fun e _ => c.Stands home keys e m) (fun _ => True)
        (Store.new (c.settings home) d 0) keys p.random.nonce (fun _ => none) name operation := by
    obtain ⟨t, hrun, ht⟩ := hstands.runAlone_memory hmemory (validate_of_loadConfig hconfig)
      p.random.nonce name operation
    exact ⟨t, hrun, ht, fun _ _ => trivial⟩
  obtain ⟨htells, hstands', -⟩ := onKey_tells (fun e _ => c.Stands home keys e m)
    (fun _ => True) (Store.new (c.settings home) d 0) p.random h.isOnKey hstands trivial hacts
  exact ⟨htells.after _, hstands'⟩

/-! ### Processes one after the other -/

/-- On files, the first processes of a session do to the disk what their commands do to the map. -/
theorem Session.acts {before after : List Process}
    (h : Session c home keys d (before ++ after) commands) (hstands : c.Stands home keys d m)
    (hfiles : c.backend = .files) :
    ∃ first rest, commands = first ++ rest ∧
      List.Forall₂ Report.Tells (runAll d before).2 (onMapAll m first).1 ∧
      c.Stands home keys (runAll d before).1 (onMapAll m first).2 ∧
      Session c home keys (runAll d before).1 after rest := by
  induction before generalizing d m commands with
  | nil => exact ⟨[], commands, rfl, .nil, hstands, h⟩
  | cons p before ih =>
    cases h with
    | @cons _ _ _ command commands hrun hnext =>
      obtain ⟨htells, hstands', -⟩ := hrun.acts hstands hfiles
      obtain ⟨first, rest, rfl, hreports, hstands'', hrest⟩ := ih hnext hstands'
      exact ⟨command :: first, rest, rfl, .cons htells hreports, hstands'', hrest⟩

/-- In memory, each process of a session does what its command does on a map that holds nothing. -/
theorem Session.acts_memory (h : Session c home keys d processes commands)
    (hstands : c.Stands home keys d m) (hmemory : c.backend = .memory) :
    List.Forall₂ Report.Tells (runAll d processes).2
      (commands.map fun command => (command.onMap fun _ => none).1) := by
  induction h with
  | done d => exact .nil
  | cons hrun hnext ih =>
    obtain ⟨htells, hstands'⟩ := hrun.acts_memory hstands hmemory
    exact .cons htells (ih hstands')

/-- **Processes act on a map.** Processes that run commands on keys, one after the other and under
one configuration, succeed and print what the map says that the disk stands for at first, and the
disk then stands for what comes of the map. A process that fails leaves the record of every key as
it is. Under a configuration for memory every process finds an empty map. -/
theorem processes_act_as_map (hsession : Session c home keys d processes commands)
    (hstands : c.Stands home keys d m) :
    (c.backend = .files →
      List.Forall₂ Report.Tells (runAll d processes).2 (onMapAll m commands).1 ∧
        c.Stands home keys (runAll d processes).1 (onMapAll m commands).2 ∧
        ∀ before p after, processes = before ++ p :: after →
          (p.run (runAll d before).1).2.code ≠ 0 → ∀ name,
            (Store.new (c.settings home) (p.run (runAll d before).1).1 0).record? name =
              (Store.new (c.settings home) (runAll d before).1 0).record? name) ∧
    (c.backend = .memory →
      List.Forall₂ Report.Tells (runAll d processes).2
        (commands.map fun command => (command.onMap fun _ => none).1)) := by
  refine ⟨fun hfiles => ?_, hsession.acts_memory hstands⟩
  have hall : Session c home keys d (processes ++ []) commands := by rwa [List.append_nil]
  obtain ⟨first, rest, rfl, hreports, hstands', hrest⟩ := hall.acts hstands hfiles
  cases hrest
  rw [List.append_nil] at hsession ⊢
  refine ⟨hreports, hstands', ?_⟩
  -- a process that fails comes to nothing on the map that the disk stands for by then
  rintro before p after rfl hcode name
  obtain ⟨_, _, _, -, hbefore, hnext⟩ := hsession.acts hstands hfiles
  cases hnext with
  | cons hrun _ =>
    obtain ⟨htells, -, hleft⟩ := hrun.acts hbefore hfiles
    refine hleft ?_ name
    cases hprinted : (Command.onMap _ _).1 with
    | none => rfl
    | some printed =>
      rw [hprinted] at htells
      exact absurd htells.1 hcode

end

namespace Sample

/-- Keys are kept in files, encrypted under a master key. -/
def config : Config :=
  ⟨.files, Text.Utf8.ofString "keys", 0, 0, some ⟨"k", Text.Utf8.ofString "master.key"⟩⟩

/-- All of the configuration is told by the environment. -/
def environment : Environment where
  entries := [("HOME", Text.Utf8.ofString "/"), ("KEYHOLD_STORE_DIR", Text.Utf8.ofString "keys"),
    ("KEYHOLD_KMS_KEY", Text.Utf8.ofString "k"),
    ("KEYHOLD_KMS_KEY_FILE", Text.Utf8.ofString "master.key")]
  accountHome := none

/-- The material of the master key. -/
def material : Cipher.Key := ⟨List.replicate 32 0x11, rfl⟩

/-- A disk with an empty directory and a master key file beside it. -/
def disk : Disk := Store.Sample.disk.put ["master.key"] (.file 0o600 (KeyFile.content material))

/-- Processes that differ in their arguments. -/
def process (arguments : List String) : Process :=
  ⟨environment, ⟨material, ⟨List.replicate 12 0x22, rfl⟩⟩, arguments⟩

/-- A key is asked for before and after it is created. -/
def processes : List Process :=
  [process ["key", "get", "a"], process ["key", "create", "a", "--hex", "0Aff"],
    process ["key", "get", "a"]]

/-- The commands of the processes. -/
def commands : List Command := [.get "a", .create "a" (.hex "0Aff"), .get "a"]

/-- The master key. -/
def keys : MasterKeys := MasterKeys.empty.withKey "k" material

theorem find?_disk (name : String) : disk.find? ["keys", name] = none := by
  simp [disk, Store.Sample.disk, Disk.find?, Disk.put, Disk.empty, FiniteMap.ofList]

/-- The disk stands for an empty map. -/
theorem stands : config.Stands (some "/") keys disk fun _ => none where
  loads := (Config.masterKeys_eq_ok_iff rfl).2 ⟨material, by decide +kernel, rfl⟩
  hosts _ := .there (Disk.serves_of_child (by decide +kernel) rfl fun name mode h => by
    cases (find?_disk name).symm.trans h)
  stores _ name hvalid := by
    have hplace : disk.placeOf "keys" name = ["keys", name] := Store.Sample.placeOf_disk name
    have hnone : (Store.new (config.settings (some "/")) disk 0).record? name = none := by
      show disk.contentAt? (disk.placeOf "keys" name) = none
      rw [hplace, Disk.contentAt?, find?_disk]
    rw [hnone]
    rfl

theorem room (secret : Secret) (nonce : Cipher.Nonce) : config.RoomFor keys nonce secret :=
  Config.roomFor_of_size_le (fun k hkms => by cases hkms; decide) keys nonce secret

/-- Each process resolves the configuration. -/
theorem session : Session config (some "/") keys disk processes commands := by
  refine .cons ⟨trivial, rfl, ⟨none, by decide +kernel, by decide +kernel⟩, ?_⟩
    (.cons ⟨trivial, rfl, ⟨none, by decide +kernel, by decide +kernel⟩, ?_⟩
      (.cons ⟨trivial, rfl, ⟨none, by decide +kernel, by decide +kernel⟩, ?_⟩ (.done _)))
  all_goals exact fun _ _ secret _ _ => room secret _

end Sample

/-- A key is printed by another process than the one that has created it. -/
theorem printed_by_another_process :
    List.Forall₂ Report.Tells (runAll Sample.disk Sample.processes).2
      [none, some "", some "0aff\n"] := by
  obtain ⟨hfiles, -⟩ := processes_act_as_map Sample.session Sample.stands
  have hmap : (onMapAll (fun _ => none) Sample.commands).1 = [none, some "", some "0aff\n"] := by
    decide +kernel
  rw [← hmap]
  exact (hfiles rfl).1

end Keyring.CommandLine
