import Keyring.Proofs.Kms.Discreet
import Keyring.Proofs.Store.Noting

/-!
# Key stores side by side

Two key stores run side by side: the same calls are made of them at the same times, the same befalls
them and their key management systems, and only the bytes of the secrets that they are to keep
differ. They differ in the bytes of secrets only at every moment, if the key management system hides
these and parts of the records of its ciphertexts are read alike; and the same is noted of both.

- `Stage.Answered`, `Incident.Answered`: what a key management system may answer;
- `Incident.Alike`: what befalls both;
- `Side`, `SideBySide`: two stores that are given secrets of the same sizes;
- `Covered`: what their key management system hides;
- `SideBySide.abreast`: they differ in the bytes of secrets only;
- `SideBySide.notices_eq`: the same is noted of them.
-/

namespace Keyring.Store

/-- A key management system in a state `a` may answer the step of a call at a stage with a reply,
and is then in a state `b`. A step that asks for nothing leaves it as it is. -/
def Stage.Answered (k : KeyService) (settings : Settings) (a : k.State) (reply : Reply)
    (b : k.State) : Stage → Prop
  | .encrypt x => k.encrypts a (settings.masterKey.getD "") x reply.encrypted b
  | .work (.decrypt c) => k.decrypts a c reply.decrypted b
  | _ => b = a

/-- A key management system in a state `a` may answer what befalls a store, and is then in a state
`b`. -/
def Incident.Answered (k : KeyService) (s : Store) (a b : k.State) : Incident → Prop
  | .move (.step id reply) =>
    match s.stage? id with
    | some stage => stage.Answered k s.settings a reply b
    | none => b = a
  | _ => b = a

/-- The same befalls two stores, but for the bytes of a secret that a call is to create, and for
what a key management system answers. -/
inductive Incident.Alike (s t : Store) : Incident → Incident → Prop where
  | call (id : Nat) (name : String) {operation operation' : Operation}
    (h : operation.Alike operation') :
    Alike s t (.move (.call id name operation)) (.move (.call id name operation'))
  | step (id : Nat) {reply reply' : Reply}
    (h : ∀ stage ∈ s.stage? id, ∀ stage' ∈ t.stage? id,
      reply.device.SameFor stage stage' reply'.device) :
    Alike s t (.move (.step id reply)) (.move (.step id reply'))
  | wait (duration : Nat) : Alike s t (.move (.wait duration)) (.move (.wait duration))
  | beginSweep (i : Nat) : Alike s t (.move (.beginSweep i)) (.move (.beginSweep i))
  | finishSweep (i : Nat) : Alike s t (.move (.finishSweep i)) (.move (.finishSweep i))
  | evict (name : String) : Alike s t (.move (.evict name)) (.move (.evict name))
  | drop (id : Nat) : Alike s t (.drop id) (.drop id)
  | restart : Alike s t .restart .restart

/-- What is noted of what befalls a store. -/
def Incident.notices (words : List UInt8 → Ciphertext.Fault → String) (s : Store) :
    Incident → List Notice
  | .move (.step id reply) =>
    match s.calls.find? id with
    | some call => s.stepNotices words call reply
    | none => []
  | .move (.beginSweep i) => s.cache.beginNotices i
  | .move (.finishSweep i) => s.cache.finishNotices i
  | _ => []

/-- Nothing but causes depends on how they are told. -/
theorem Incident.map_bare_notices (words : List UInt8 → Ciphertext.Fault → String) (s : Store)
    (i : Incident) : (i.notices words s).map Notice.bare = i.notices Ciphertext.silent s := by
  unfold Incident.notices
  split
  case h_1 id reply =>
    cases s.calls.find? id with
    | none => rfl
    | some call => exact map_bare_stepNotices words s call reply
  case h_2 i =>
    unfold SweptCache.beginNotices
    repeat' split
    all_goals rfl
  case h_3 i =>
    unfold SweptCache.finishNotices
    repeat' split
    all_goals rfl
  case h_4 => rfl

/-- A store with its key management system, and all that was noted of it. -/
structure Side (k : KeyService) where
  /-- The store. -/
  store : Store
  /-- The state of the key management system. -/
  service : k.State
  /-- What was noted, the first first. -/
  notices : List Notice

/-- A new store with a key management system in its first state. -/
def Side.new (k : KeyService) (settings : Settings) (disk : Disk) (now : Nat) : Side k :=
  ⟨Store.new settings disk now, k.start, []⟩

/-- Something is done to the key management system. -/
def Side.serve {k : KeyService} (a : Side k) (step : k.Step) : Side k :=
  { a with service := k.next a.service step }

/-- Something befalls the store, which leaves the key management system in a state. -/
def Side.befall {k : KeyService} (w : Ciphertext.Wording) (a : Side k) (i : Incident)
    (service : k.State) : Side k :=
  ⟨a.store.befall i, service, a.notices ++ i.notices (Ciphertext.Fault.text w) a.store⟩

/-- Two stores with their key management systems, set up in the same way, of which the same calls
were made with secrets of the same sizes, and which the same has befallen otherwise. -/
inductive SideBySide (k : KeyService) (settings : Settings) (disk : Disk) (now : Nat)
    (w : Ciphertext.Wording) : Side k → Side k → Prop where
  | start : SideBySide k settings disk now w (.new k settings disk now) (.new k settings disk now)
  | service {a b : Side k} (h : SideBySide k settings disk now w a b) (step : k.Step) :
    SideBySide k settings disk now w (a.serve step) (b.serve step)
  | incident {a b : Side k} {next next' : k.State} (h : SideBySide k settings disk now w a b)
    {i j : Incident} (halike : i.Alike a.store b.store j) (hfresh : i.Fresh a.store)
    (hi : i.Answered k a.store a.service next) (hj : j.Answered k b.store b.service next') :
    SideBySide k settings disk now w (a.befall w i next) (b.befall w j next')

section

variable {settings : Settings} {kin : Ciphertext → Ciphertext → Prop}
  {words : List UInt8 → Ciphertext.Fault → String} {w : Ciphertext.Wording} {s t : Store}
  {disk : Disk} {now id : Nat} {i j : Incident} {k : KeyService}
  {twins : k.State → k.State → Prop} {a a' b b' : k.State} {p q : Side k}
  {reply reply' : Reply} {stage stage' : Stage}

/-! ### What befalls both stores -/

theorem twins_new (hrefl : ∀ c, kin c c) (settings : Settings) (disk : Disk) (now : Nat) :
    Twins settings kin words (new settings disk now) (new settings disk now) where
  left := rfl
  right := rfl
  disk := .refl (readAlike_refl hrefl) disk
  table _ := .none
  cache := .refl_new now
  started := rfl
  locks := rfl
  calls _ := .none
  log := rfl
  encryptions := rfl
  decryptions := rfl

theorem Twins.call (h : Twins settings kin words s t) (id : Nat) (name : String)
    {operation operation' : Operation} (hoperation : operation.Alike operation') :
    Twins settings kin words (s.call id name operation) (t.call id name operation') := by
  refine { h with calls := fun other => ?_ }
  simp only [Store.call, FiniteMap.find?_insert]
  split
  · exact .some ⟨rfl, hoperation, .start⟩
  · exact h.calls other

theorem Twins.abandon (h : Twins settings kin words s t) (id : Nat) :
    Twins settings kin words (s.abandon id) (t.abandon id) := by
  refine { h with locks := by rw [Store.abandon, Store.abandon, h.locks], calls := fun other => ?_ }
  rw [find?_abandon, find?_abandon]
  split
  · exact .none
  · exact h.calls other

theorem Twins.reopen (h : Twins settings kin words s t) :
    Twins settings kin words s.reopen t.reopen where
  left := h.left
  right := h.right
  disk := h.disk
  table _ := .none
  cache := by
    unfold Store.reopen
    rw [h.cache.now]
    exact .refl_new _
  started := rfl
  locks := rfl
  calls _ := .none
  log := rfl
  encryptions := rfl
  decryptions := rfl

/-- What befalls both, other than a step of a call, leaves them alike. -/
theorem Twins.befall (h : Twins settings kin words s t) (halike : i.Alike s t j)
    (hstep : ∀ id reply, i ≠ .move (.step id reply)) :
    Twins settings kin words (s.befall i) (t.befall j) := by
  cases halike with
  | call id name hoperation => exact h.call id name hoperation
  | step id => exact absurd rfl (hstep id _)
  | wait duration => exact h.setCache (h.cache.wait duration)
  | beginSweep i => exact h.setCache (h.cache.beginSweep i)
  | finishSweep i => exact h.setCache (h.cache.finishSweep i)
  | evict name => exact h.setCache (h.cache.erase name)
  | drop id => exact h.abandon id
  | restart => exact h.reopen

/-- A number that is not in use in one is not in use in the other. -/
theorem Twins.fresh (h : Twins settings kin words s t) (halike : i.Alike s t j)
    (hfresh : i.Fresh s) : j.Fresh t := by
  cases halike with
  | call id name hoperation =>
    have hcalls := h.calls id
    have hnone : s.calls.find? id = none := hfresh
    rw [hnone] at hcalls
    generalize hfound : t.calls.find? id = found at hcalls
    cases hcalls
    exact hfound
  | _ => trivial

/-- What a key management system that hides the bytes of secrets answers to two calls. -/
theorem Stage.Alike.answered (h : stage.Alike settings kin stage')
    (hhides : ∀ key, settings.masterKey = some key → k.HidesBy kin twins) (htwins : twins a b)
    (hleft : stage.Answered k settings a reply a')
    (hright : stage'.Answered k settings b reply' b') :
    twins a' b' ∧
      (∀ x y, stage = .encrypt x → stage' = .encrypt y → x.Alike y →
        SameResult kin reply.encrypted reply'.encrypted) ∧
      (∀ c d, stage = .work (.decrypt c) → stage' = .work (.decrypt d) → kin c d →
        SameResult Secret.Alike reply.decrypted reply'.decrypted) := by
  cases h with
  | encrypt hkey hxy =>
    obtain ⟨hanswer, htwins'⟩ := (hhides _ hkey).encrypts htwins hxy hleft hright
    exact ⟨htwins', fun _ _ _ _ _ => hanswer, nofun⟩
  | work hw =>
    cases hw with
    | decrypt hkey hcd =>
      obtain ⟨hanswer, htwins'⟩ := (hhides _ hkey).decrypts htwins hcd hleft hright
      exact ⟨htwins', nofun, fun _ _ _ _ _ => hanswer⟩
    | _ =>
      -- no other work asks for an answer
      obtain rfl : a' = a := hleft
      obtain rfl : b' = b := hright
      exact ⟨htwins, nofun, nofun⟩
  | _ =>
    obtain rfl : a' = a := hleft
    obtain rfl : b' = b := hright
    exact ⟨htwins, nofun, nofun⟩

/-- If a store asks a key management system at all, it hides the bytes of secrets by two relations;
and parts of the records of ciphertexts that are kin are read alike, and noted in the same words. -/
structure Covered (k : KeyService) (settings : Settings) (kin : Ciphertext → Ciphertext → Prop)
    (twins : k.State → k.State → Prop) (words : List UInt8 → Ciphertext.Fault → String) : Prop
    extends k.Relates kin twins where
  hides : ∀ key, settings.masterKey = some key → k.HidesBy kin twins
  parts : ∀ {c d}, kin c d → PartsAlike kin words c d

/-- Two stores, which differ in the bytes of secrets only, with their key management systems. -/
structure Abreast (k : KeyService) (settings : Settings) (kin : Ciphertext → Ciphertext → Prop)
    (twins : k.State → k.State → Prop) (words : List UInt8 → Ciphertext.Fault → String)
    (s : Store) (a : k.State) (t : Store) (b : k.State) : Prop where
  stores : Twins settings kin words s t
  services : twins a b
  soundLeft : s.Sound
  soundRight : t.Sound
  draftedLeft : ∀ name, s.Drafted name
  draftedRight : ∀ name, t.Drafted name

/-- A step that is made in both. -/
theorem Abreast.step (h : Abreast k settings kin twins words s a t b)
    (hcovered : Covered k settings kin twins words)
    (hdevice : ∀ stage ∈ s.stage? id, ∀ stage' ∈ t.stage? id,
      reply.device.SameFor stage stage' reply'.device)
    (hleft : Incident.Answered k s a a' (.move (.step id reply)))
    (hright : Incident.Answered k t b b' (.move (.step id reply'))) :
    Twins settings kin words (s.step id reply) (t.step id reply') ∧ twins a' b' := by
  have hcalls := h.stores.calls id
  have hfits := h.soundLeft.fits id
  have hdraftedLeft (name : String) := (h.draftedLeft name).stored id
  have hdraftedRight (name : String) := (h.draftedRight name).stored id
  simp only [Incident.Answered, Store.stage?] at hdevice hleft hright
  simp only [WorksOn] at hdraftedLeft hdraftedRight
  unfold Store.step
  generalize s.calls.find? id = found at *
  generalize t.calls.find? id = found' at *
  cases hcalls with
  | none =>
    obtain rfl : a' = a := hleft
    obtain rfl : b' = b := hright
    exact ⟨h.stores, h.services⟩
  | @some call call' hcall =>
    dsimp only [Option.map_some] at hleft hright
    rw [h.stores.left] at hleft
    rw [h.stores.right] at hright
    obtain ⟨htwins, hencrypted, hdecrypted⟩ :=
      hcall.stage.answered hcovered.hides h.services hleft hright
    obtain ⟨hstores, hstage⟩ := h.stores.perform hcovered.refl hcovered.parts id hcall
      (hfits call rfl) (fun w hw => hdraftedLeft call.name w ⟨call, rfl, rfl, hw⟩)
      (fun w hw => hdraftedRight call.name w ⟨call', rfl, hcall.name.symm, hw⟩)
      (hdevice _ rfl _ rfl) hencrypted hdecrypted
    refine ⟨{ hstores with calls := fun other => ?_ }, htwins⟩
    simp only [FiniteMap.find?_insert]
    split
    · exact .some ⟨hcall.name, hcall.operation, hstage⟩
    · exact hstores.calls other

/-- Whatever befalls both leaves them abreast. -/
theorem Abreast.incident (h : Abreast k settings kin twins words s a t b)
    (hcovered : Covered k settings kin twins words) (halike : i.Alike s t j)
    (hfresh : i.Fresh s) (hi : i.Answered k s a a') (hj : j.Answered k t b b') :
    Abreast k settings kin twins words (s.befall i) a' (t.befall j) b' := by
  have hfresh' := h.stores.fresh halike hfresh
  obtain ⟨hsoundLeft, hdraftedLeft⟩ := i.drafted hfresh h.soundLeft h.draftedLeft
  obtain ⟨hsoundRight, hdraftedRight⟩ := j.drafted hfresh' h.soundRight h.draftedRight
  suffices hboth : Twins settings kin words (s.befall i) (t.befall j) ∧ twins a' b' from
    ⟨hboth.1, hboth.2, hsoundLeft, hsoundRight, hdraftedLeft, hdraftedRight⟩
  have hquiet := h.stores.befall halike
  cases halike with
  | step id hdevice => exact h.step hcovered hdevice hi hj
  | _ =>
    -- nobody is asked for anything
    obtain rfl : a' = a := hi
    obtain rfl : b' = b := hj
    exact ⟨hquiet (fun _ _ heq => by cases heq), h.services⟩

/-- The same is noted of what befalls both. -/
theorem Twins.notices_eq (h : Twins settings kin words s t) (halike : i.Alike s t j) :
    i.notices words s = j.notices words t := by
  cases halike with
  | step id hdevice =>
    have hcalls := h.calls id
    simp only [Store.stage?] at hdevice
    unfold Incident.notices
    dsimp only
    generalize s.calls.find? id = found at *
    generalize t.calls.find? id = found' at *
    cases hcalls with
    | none => rfl
    | some hcall => exact h.stepNotices_eq hcall (hdevice _ rfl _ rfl)
  | beginSweep i => exact h.cache.beginNotices_eq i
  | finishSweep i => exact h.cache.finishNotices_eq i
  | call | wait | evict | drop | restart => rfl

/-- Stores that run side by side differ in the bytes of secrets only. -/
theorem SideBySide.abreast (h : SideBySide k settings disk now w p q)
    (hcovered : Covered k settings kin twins words) :
    Abreast k settings kin twins words p.store p.service q.store q.service := by
  induction h with
  | start =>
    have hsound := sound_new settings disk now
    exact ⟨twins_new hcovered.refl settings disk now, hcovered.start, hsound, hsound,
      drafted_of_no_calls rfl, drafted_of_no_calls rfl⟩
  | service _ step ih => exact { ih with services := hcovered.next ih.services step }
  | incident _ halike hfresh hi hj ih => exact ih.incident hcovered halike hfresh hi hj

/-- The same is noted of stores that run side by side, as far as it is told in the given words. -/
theorem SideBySide.notices_eq (h : SideBySide k settings disk now w p q)
    (hcovered : Covered k settings kin twins words) {f : Notice → Notice}
    (hf : ∀ (s : Store) (i : Incident),
      (i.notices (Ciphertext.Fault.text w) s).map f = i.notices words s) :
    p.notices.map f = q.notices.map f := by
  induction h with
  | start => rfl
  | service _ step ih => exact ih
  | incident h halike hfresh hi hj ih =>
    have hnotices := (h.abreast hcovered).stores.notices_eq halike
    rw [Side.befall, Side.befall, List.map_append, List.map_append, ih, hf, hf, hnotices]

end

end Keyring.Store
