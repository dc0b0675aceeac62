import Keyring.Proofs.Store.SideBySide
import Keyring.Store.Notice

/-!
# What is noted of key stores that differ in secrets

In two key stores that differ in secrets only, the same steps and the same sweeps are noted in the
same words. Sweeps tell how many entries they remove, and as many are too old in both caches. Of a
record that cannot be read, the cause is noted in words that depend on its bytes; these are the same
if the bytes are alike in those words.

- `SweptCache.Alike.finishNotices_eq`: sweeps;
- `map_bare_stepNotices`: only causes are told in words that depend on the bytes of a record;
- `Twins.bytesRead?`: the bytes that are read;
- `Twins.stepNotices_eq`: a step.
-/

namespace Keyring

namespace SweptCache.Alike

variable {c d : SweptCache}

/-- The same sweeps end. -/
theorem beginNotices_eq (h : c.Alike d) (i : Nat) : c.beginNotices i = d.beginNotices i := by
  unfold SweptCache.beginNotices
  rw [h.now, h.dropped, h.sweeps]

/-- The sweeps remove as many entries. -/
theorem finishNotices_eq (h : c.Alike d) (i : Nat) : c.finishNotices i = d.finishNotices i := by
  have hafter := (h.finishSweep i).size_eq
  unfold SweptCache.finishSweep at hafter
  unfold SweptCache.finishNotices
  rw [h.sweeps] at hafter ⊢
  cases hsweep : d.sweeps[i]? with
  | none => rfl
  | some sweep =>
    rw [hsweep] at hafter
    dsimp only at hafter ⊢
    rw [hafter, h.size_eq]

end SweptCache.Alike

namespace Store

variable {settings : Settings} {kin : Ciphertext → Ciphertext → Prop}
  {words : List UInt8 → Ciphertext.Fault → String} {s t : Store} {name : String}
  {r r' : List UInt8} {device device' : Disk.Reply} {call call' : Call} {reply reply' : Reply}

/-! ### Without causes -/

theorem map_bare_beginNotices (s : Store) (name : String) :
    (s.beginNotices name).map Notice.bare = s.beginNotices name := by
  unfold beginNotices Settings.sweepNotices
  split
  case h_1 => rfl
  case h_2 =>
    simp only [List.filterMap_cons, List.filterMap_nil]
    split_ifs <;> rfl

theorem map_bare_readNotices (words : List UInt8 → Ciphertext.Fault → String) (s : Store)
    (record : List UInt8) :
    (s.readNotices words record).map Notice.bare = s.readNotices Ciphertext.silent record := by
  unfold readNotices
  cases s.settings.masterKey with
  | none => rfl
  | some key => cases Ciphertext.decode record <;> rfl

/-- Only why a record is no ciphertext is told in words that depend on its bytes. -/
theorem map_bare_stepNotices (words : List UInt8 → Ciphertext.Fault → String) (s : Store)
    (call : Call) (reply : Reply) :
    (s.stepNotices words call reply).map Notice.bare =
      s.stepNotices Ciphertext.silent call reply := by
  unfold stepNotices
  split
  case h_1 => exact s.map_bare_beginNotices call.name
  case h_2 =>
    cases s.bytesRead? call.name reply.device with
    | none => rfl
    | some record => exact s.map_bare_readNotices words record
  case h_3 | h_4 | h_5 => rfl

/-! ### What is noted of both -/

theorem Twins.beginNotices_eq (h : Twins settings kin words s t) (name : String) :
    s.beginNotices name = t.beginNotices name := by
  unfold Store.beginNotices
  rw [h.started, h.left, h.right]

/-- The bytes that are read are alike. -/
theorem Twins.bytesRead? (h : Twins settings kin words s t) (name : String)
    (hdevice : device.SameFor (.work .read) (.work .read) device') :
    Option.Rel (BytesAlike settings kin words) (s.bytesRead? name device)
      (t.bytesRead? name device') := by
  unfold Store.bytesRead?
  rw [h.left, h.right]
  cases hbackend : settings.backend with
  | memory =>
    have hrecord := h.table name
    unfold ReadAlike at hrecord
    rwa [hbackend] at hrecord
  | files directory =>
    cases hdevice with
    | refuse fault => exact .none
    | accept =>
      have hcontent := h.disk.read (path directory name)
      dsimp only
      generalize s.disk.read (path directory name) = content at *
      generalize t.disk.read (path directory name) = content' at *
      cases hcontent with
      | ok hread =>
        rw [ReadAlike, hbackend] at hread
        exact .some hread
      | error fault => exact .none

theorem Twins.readNotices_eq (h : Twins settings kin words s t)
    (hread : BytesAlike settings kin words r r') :
    s.readNotices words r = t.readNotices words r' := by
  unfold Store.readNotices
  unfold BytesAlike at hread
  rw [h.left, h.right]
  cases hkey : settings.masterKey with
  | none => rfl
  | some key =>
    simp only [hkey, Ciphertext.readNoting] at hread ⊢
    generalize Ciphertext.decode r = result at *
    generalize Ciphertext.decode r' = result' at *
    cases result with
    | ok c =>
      cases result' with
      | ok d => rfl
      | error fault => cases hread
    | error fault =>
      cases result' with
      | ok d => cases hread
      | error fault' =>
        dsimp only at hread ⊢
        rw [hread.fault_eq]

/-- **Calls that differ in secrets are noted in the same words.** -/
theorem Twins.stepNotices_eq (h : Twins settings kin words s t)
    (hcall : call.Alike settings kin call')
    (hdevice : reply.device.SameFor call.stage call'.stage reply'.device) :
    s.stepNotices words call reply = t.stepNotices words call' reply' := by
  obtain ⟨name, operation, stage⟩ := call
  obtain ⟨name', operation', stage'⟩ := call'
  obtain ⟨rfl, -, hstage⟩ := hcall
  unfold Store.stepNotices
  rw [h.left, h.right]
  dsimp only at hstage hdevice ⊢
  cases hstage with
  | start => exact h.beginNotices_eq name
  | work hw =>
    cases hw with
    | read =>
      have hread := h.bytesRead? name hdevice
      dsimp only
      generalize s.bytesRead? name reply.device = record at *
      generalize t.bytesRead? name reply'.device = record' at *
      cases hread with
      | none => rfl
      | some hread => exact h.readNotices_eq hread
    | cacheCreated => cases settings.backend <;> rfl
    | purge houtcome => cases houtcome <;> cases settings.backend <;> rfl
    | _ => rfl
  | _ => rfl

end Store

end Keyring
