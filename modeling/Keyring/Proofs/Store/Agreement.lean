import Keyring.Proofs.Disk.Files
import Keyring.Proofs.Store.Records

/-!
# What the cache, a file and the calls for it have in common

A key store of files fills its cache from two sides: a call that creates a key puts the secret in
when the file is on the device, and a call that reads one puts in what it has read. Both share the
lock, so a file may be read before it is complete, and may be gone when what was read is cached.

- `RaceFree`: no call reads a file that another one is still writing or is to remove again, and no
  call fails to store a file that another one has read;
- `Work.Sees`: what a call may rely on about the file, from the work that it does;
- `Agreeing`: the cache, the file and the calls agree about a key;
- `Agreeing.advances`, `Legal.agreeing`: they do after each step, and after each run without races.
-/

namespace Keyring.Store

/-- Work after which the file of a new key stands, complete or not. -/
def Work.isStoring : Work → Bool
  | .write _ _ _ | .flush _ | .sync _ | .rollBack _ | .cacheCreated _ => true
  | _ => false

/-- Work on a file that is not complete or is to go again. -/
def Work.isDraft : Work → Bool
  | .write _ _ _ | .rollBack _ => true
  | _ => false

/-- The removal of a file after a failure. -/
def Work.isRollBack : Work → Bool
  | .rollBack _ => true
  | _ => false

/-- Work after a record was read. -/
def Work.hasRead : Work → Bool
  | .decrypt _ | .cacheRead _ => true
  | _ => false

/-- The work that a call does at a stage. -/
def Stage.work? : Stage → Option Work
  | .work w => some w
  | _ => none

/-- Some call does work of a kind on a name. -/
def SomeWorks (s : Store) (name : String) (kind : Work → Bool) : Prop :=
  ∃ e ∈ s.calls.entries, e.2.name = name ∧ e.2.stage.work?.any kind = true

/-- A move in which the removal of the file of a key after a failure succeeds. -/
def RollsBack (name : String) (s : Store) : Move → Prop
  | .step id reply => ∀ call ∈ s.calls.find? id, call.name = name →
    call.stage.work?.any Work.isRollBack = true → s.removal name reply.device = .done
  | _ => True

/-- A move in which no call reads the file of a key that is not complete or is to go again, and no
call fails to store that file when another one has read it. -/
def RaceFree (name : String) (s : Store) : Move → Prop
  | .step id reply => ∀ call ∈ s.calls.find? id, call.name = name →
    (call.stage = .work .read → ¬s.SomeWorks name Work.isDraft) ∧
    ∀ stage ∈ (s.step id reply).stage? id, stage.work?.any Work.isRollBack = true →
      s.cached? name = none ∧ ¬s.SomeWorks name Work.hasRead
  | _ => True

instance decidableSomeWorks (s : Store) (name : String) (kind : Work → Bool) :
    Decidable (s.SomeWorks name kind) :=
  inferInstanceAs (Decidable (∃ e ∈ s.calls.entries, _ ∧ _))

instance decidableRollsBack (name : String) (s : Store) :
    (m : Move) → Decidable (RollsBack name s m)
  | .step id reply => inferInstanceAs (Decidable (∀ call ∈ s.calls.find? id, call.name = name →
      call.stage.work?.any Work.isRollBack = true → s.removal name reply.device = .done))
  | .call _ _ _ | .wait _ | .beginSweep _ | .finishSweep _ | .evict _ => isTrue trivial

instance decidableRaceFree (name : String) (s : Store) : (m : Move) → Decidable (RaceFree name s m)
  | .step id reply => inferInstanceAs (Decidable (∀ call ∈ s.calls.find? id, call.name = name →
      (call.stage = .work .read → ¬s.SomeWorks name Work.isDraft) ∧
      ∀ stage ∈ (s.step id reply).stage? id, stage.work?.any Work.isRollBack = true →
        s.cached? name = none ∧ ¬s.SomeWorks name Work.hasRead))
  | .call _ _ _ | .wait _ | .beginSweep _ | .finishSweep _ | .evict _ => isTrue trivial

/-- Nothing changes of the file of a name. -/
structure Spares (s t : Store) (name : String) : Prop where
  settings : t.settings = s.settings
  reaches : s.Reaches name → t.Reaches name
  record : t.record? name = s.record? name

/-- A file can be read that holds a secret. -/
structure Backed (opens : Ciphertext → Option Secret) (s : Store) (name : String)
    (secret : Secret) : Prop where
  valid : KeyName.Valid name
  reaches : s.Reaches name
  record : ∃ record, s.record? name = some record ∧
    secretOf s.settings opens record = some secret

/-- What some work under the lock has to do with the file of its name. -/
def Work.Sees (opens : Ciphertext → Option Secret) (s : Store) (name : String) : Work → Prop
  | .write _ record written =>
    written < record.length ∧ s.Reaches name ∧ s.record? name = some (record.take written)
  | .flush secret | .sync secret | .cacheCreated secret | .cacheRead secret =>
    s.Backed opens name secret
  | .rollBack _ => s.record? name ≠ none
  | .decrypt c => ∃ record, s.Reaches name ∧ s.record? name = some record ∧
    secretOf s.settings opens record = opens c
  | _ => True

/-- The cache, the file of a key and the calls that work on it agree. -/
structure Agreeing (opens : Ciphertext → Option Secret) (s : Store) (name : String) : Prop where
  /-- A file holds what is cached, unless the name is about to leave the cache. -/
  cached : ∀ secret, s.cached? name = some secret → s.Backed opens name secret ∨
    ∃ id outcome, s.WorksOn name id (.purge outcome)
  /-- The file is as the calls that work on it expect it. -/
  sees : ∀ id w, s.WorksOn name id w → w.Sees opens s name
  /-- At most one call stores the file. -/
  storing : ∀ id j w w', s.WorksOn name id w → s.WorksOn name j w' → w.isStoring = true →
    w'.isStoring = true → id = j
  /-- What is not complete or is to go again is neither cached nor read. -/
  draft : ∀ id w, s.WorksOn name id w → w.isDraft = true → s.cached? name = none ∧
    ∀ j w', s.WorksOn name j w' → w'.hasRead = false

section

variable {opens : Ciphertext → Option Secret} {s t : Store} {id j : Nat} {name : String}
  {reply : Reply} {call : Call} {stage : Stage} {change : Change} {secret : Secret}

theorem Stage.work?_eq_some_iff {w : Work} : stage.work? = some w ↔ stage = .work w := by
  cases stage <;> simp [Stage.work?]

/-- Some call does work of a kind if there is one that does. -/
theorem someWorks_iff {kind : Work → Bool} :
    s.SomeWorks name kind ↔ ∃ id w, s.WorksOn name id w ∧ kind w = true := by
  constructor
  · rintro ⟨⟨id, call⟩, hmem, hname, hkind⟩
    rw [Option.any_eq_true] at hkind
    obtain ⟨w, hw, hkind⟩ := hkind
    exact ⟨id, w, ⟨call, FiniteMap.mem_entries_iff.1 hmem, hname,
      Stage.work?_eq_some_iff.1 hw⟩, hkind⟩
  · rintro ⟨id, w, ⟨call, hcall, hname, hstage⟩, hkind⟩
    refine ⟨(id, call), FiniteMap.mem_entries_iff.2 hcall, hname, ?_⟩
    rw [Option.any_eq_true]
    exact ⟨w, Stage.work?_eq_some_iff.2 hstage, hkind⟩

/-- A step that leaves the record of a name spares its file. -/
theorem Advances.spares (hadv : s.Advances t id call reply change stage)
    (hrecord : t.record? name = s.record? name) : s.Spares t name :=
  ⟨hadv.settings, fun hreaches => hreaches.advances hadv, hrecord⟩

/-- A file of which nothing changes goes on backing a secret. -/
theorem Backed.spares (h : s.Backed opens name secret) (hspares : s.Spares t name) :
    t.Backed opens name secret where
  valid := h.valid
  reaches := hspares.reaches h.reaches
  record := by
    rw [hspares.record, hspares.settings]
    exact h.record

/-- What work sees it goes on seeing if nothing changes of the file. -/
theorem Work.Sees.spares {w : Work} (h : w.Sees opens s name) (hspares : s.Spares t name) :
    w.Sees opens t name := by
  cases w with
  | write x record written =>
    obtain ⟨hle, hreaches, hcontent⟩ := h
    exact ⟨hle, hspares.reaches hreaches, hspares.record.trans hcontent⟩
  | flush x => exact Backed.spares h hspares
  | sync x => exact Backed.spares h hspares
  | cacheCreated x => exact Backed.spares h hspares
  | cacheRead x => exact Backed.spares h hspares
  | rollBack fault =>
    -- the file that is to go still stands
    intro hnone
    exact h (hspares.record.symm.trans hnone)
  | decrypt c =>
    obtain ⟨record, hreaches, hcontent, hopens⟩ := h
    exact ⟨record, hspares.reaches hreaches, hspares.record.trans hcontent,
      by rwa [hspares.settings]⟩
  | makeDirectory _ _ | createFile _ _ | insert _ _ | read | remove | purge _ => trivial

/-- Work that neither stores a file nor has read one sees nothing. -/
theorem sees_of_idle {w : Work} (hstoring : w.isStoring = false) (hread : w.hasRead = false) :
    w.Sees opens s name := by
  cases w <;> trivial

theorem isStoring_of_isDraft {w : Work} (h : w.isDraft = true) : w.isStoring = true := by
  cases w <;> first | rfl | cases h

/-- What leaves the file and the work on it alone, and caches nothing, keeps agreement. -/
theorem Agreeing.spares (h : s.Agreeing opens name) (hspares : s.Spares t name)
    (hcached : ∀ x, t.cached? name = some x → s.cached? name = some x)
    (hworks : ∀ j w, t.WorksOn name j w ↔ s.WorksOn name j w) : t.Agreeing opens name := by
  refine ⟨fun x hx => ?_, fun j w hj => ?_, fun i j w w' hi hj => ?_, fun j w hj hdraft => ?_⟩
  · refine (h.cached x (hcached x hx)).imp (fun hbacked => hbacked.spares hspares) ?_
    rintro ⟨j, outcome, hj⟩
    exact ⟨j, outcome, (hworks j _).2 hj⟩
  · exact (h.sees j w ((hworks j w).1 hj)).spares hspares
  · exact h.storing i j w w' ((hworks i w).1 hi) ((hworks j w').1 hj)
  · obtain ⟨hnone, hread⟩ := h.draft j w ((hworks j w).1 hj) hdraft
    refine ⟨Option.eq_none_iff_forall_ne_some.2 fun x hx => ?_,
      fun k w' hk => hread k w' ((hworks k w').1 hk)⟩
    rw [hcached x hx] at hnone
    cases hnone

/-- A step changes nothing under other names than that of its call. -/
theorem Agreeing.elsewhere (h : s.Agreeing opens name) (hcall : s.calls.find? id = some call)
    (hadv : s.Advances t id call reply change stage) (hne : call.name ≠ name) :
    t.Agreeing opens name := by
  have hrecord : t.record? name = s.record? name := by rw [hadv.record, if_neg hne.symm]
  have hcached : t.cached? name = s.cached? name := by rw [hadv.cached, if_neg hne.symm]
  exact h.spares (hadv.spares hrecord) (fun x hx => hcached.symm.trans hx) fun j w =>
    hadv.worksOn_iff_of_ne hcall hne

/-- A step that leaves the record keeps agreement, if its call and the others get along. -/
theorem Agreeing.keep (h : s.Agreeing opens call.name) (hcall : s.calls.find? id = some call)
    (hadv : s.Advances t id call reply change stage)
    (hrecord : change.recordAfter (s.record? call.name) = s.record? call.name)
    (hcached : ∀ x, change.cachedAfter (s.cached? call.name) = some x →
      s.Backed opens call.name x ∨ ∃ j outcome, j ≠ id ∧ s.WorksOn call.name j (.purge outcome))
    (hsees : ∀ w, stage = .work w → w.Sees opens s call.name)
    (hstoring : ∀ w, stage = .work w → w.isStoring = true →
      ∀ j w', j ≠ id → s.WorksOn call.name j w' → w'.isStoring = false)
    (hdraft : ∀ w, stage = .work w → w.isDraft = true →
      change.cachedAfter (s.cached? call.name) = none ∧
        ∀ j w', j ≠ id → s.WorksOn call.name j w' → w'.hasRead = false)
    (hothers : ∀ j w', j ≠ id → s.WorksOn call.name j w' → w'.isDraft = true →
      change.cachedAfter (s.cached? call.name) = none ∧
        ∀ w, stage = .work w → w.hasRead = false) : t.Agreeing opens call.name := by
  have hworks {j : Nat} {w : Work} : t.WorksOn call.name j w ↔
      j = id ∧ stage = .work w ∨ j ≠ id ∧ s.WorksOn call.name j w := by
    rw [hadv.worksOn_iff]
    split <;> simp_all
  have hrecord' : t.record? call.name = s.record? call.name := by
    rw [hadv.record, if_pos rfl, hrecord]
  have hcached' : t.cached? call.name = change.cachedAfter (s.cached? call.name) := by
    rw [hadv.cached, if_pos rfl]
  -- who works on the name now is the call itself or worked on it before
  refine ⟨fun x hx => ?_, fun j w hj => ?_, fun i j w w' hi hj hw hw' => ?_, fun j w hj hw => ?_⟩
  · refine (hcached x (hcached' ▸ hx)).imp (fun hbacked => hbacked.spares (hadv.spares hrecord')) ?_
    rintro ⟨j, outcome, hne, hj⟩
    exact ⟨j, outcome, hworks.2 (.inr ⟨hne, hj⟩)⟩
  · rcases hworks.1 hj with ⟨rfl, hstage⟩ | ⟨-, hj⟩
    · exact (hsees w hstage).spares (hadv.spares hrecord')
    · exact (h.sees j w hj).spares (hadv.spares hrecord')
  · rcases hworks.1 hi with ⟨rfl, hi⟩ | ⟨hne, hi⟩ <;> rcases hworks.1 hj with ⟨rfl, hj⟩ | ⟨hne', hj⟩
    · rfl
    · rw [hstoring w hi hw j w' hne' hj] at hw'
      cases hw'
    · rw [hstoring w' hj hw' i w hne hi] at hw
      cases hw
    · exact h.storing i j w w' hi hj hw hw'
  · rw [hcached']
    rcases hworks.1 hj with ⟨rfl, hstage⟩ | ⟨hne, hj⟩
    · refine ⟨(hdraft w hstage hw).1, fun k w' hk => ?_⟩
      rcases hworks.1 hk with ⟨-, hstage'⟩ | ⟨hne', hk⟩
      · -- no draft is read by the call that makes it
        obtain rfl := Stage.work.inj (hstage.symm.trans hstage')
        cases w <;> first | rfl | cases hw
      · exact (hdraft w hstage hw).2 k w' hne' hk
    · obtain ⟨hnone, hself⟩ := hothers j w hne hj hw
      refine ⟨hnone, fun k w' hk => ?_⟩
      rcases hworks.1 hk with ⟨rfl, hk⟩ | ⟨hne', hk⟩
      · exact hself w' hk
      · exact (h.draft j w hj hw).2 k w' hk

/-- A step that changes the record keeps agreement, if no other call has to do with the file. -/
theorem Agreeing.replace (hadv : s.Advances t id call reply change stage)
    (hfree : ∀ j w', j ≠ id → s.WorksOn call.name j w' →
      w'.isStoring = false ∧ w'.hasRead = false)
    (hcached : change.cachedAfter (s.cached? call.name) = none ∨
      ∃ outcome, stage = .work (.purge outcome))
    (hsees : ∀ w, stage = .work w → w.Sees opens t call.name ∧ w.hasRead = false) :
    t.Agreeing opens call.name := by
  have hworks {j : Nat} {w : Work} (hj : t.WorksOn call.name j w) :
      j = id ∧ stage = .work w ∨ w.isStoring = false ∧ w.hasRead = false := by
    rw [hadv.worksOn_iff] at hj
    split at hj
    case isTrue heq => exact .inl ⟨heq, hj.2⟩
    case isFalse hne => exact .inr (hfree j w hne hj)
  have hcached' : t.cached? call.name = change.cachedAfter (s.cached? call.name) := by
    rw [hadv.cached, if_pos rfl]
  refine ⟨fun x hx => .inr ?_, fun j w hj => ?_, fun i j w w' hi hj hw hw' => ?_,
    fun j w hj hw => ?_⟩
  · rcases hcached with hnone | ⟨outcome, hpurge⟩
    · rw [hcached', hnone] at hx
      cases hx
    · exact ⟨id, outcome, hadv.worksOn_iff.2 (by rw [if_pos rfl]; exact ⟨rfl, hpurge⟩)⟩
  · rcases hworks hj with ⟨-, hstage⟩ | ⟨hstoring, hread⟩
    · exact (hsees w hstage).1
    · exact sees_of_idle hstoring hread
  · rcases hworks hi with ⟨rfl, -⟩ | ⟨hstoring, -⟩
    · rcases hworks hj with ⟨rfl, -⟩ | ⟨hstoring, -⟩
      · rfl
      · rw [hstoring] at hw'
        cases hw'
    · rw [hstoring] at hw
      cases hw
  · rcases hworks hj with ⟨-, hstage⟩ | ⟨hstoring, -⟩
    · refine ⟨hcached'.trans (hcached.resolve_right ?_), fun k w' hk => ?_⟩
      · rintro ⟨outcome, hpurge⟩
        obtain rfl := Stage.work.inj (hstage.symm.trans hpurge)
        cases hw
      · rcases hworks hk with ⟨-, hstage'⟩ | ⟨-, hread⟩
        · exact (hsees w' hstage').2
        · exact hread
    · rw [isStoring_of_isDraft hw] at hstoring
      cases hstoring

/-- Without a file no call stores it or has read it. -/
theorem Agreeing.idle_of_none (h : s.Agreeing opens name) (hnone : s.record? name = none)
    {w : Work} (hj : s.WorksOn name j w) : w.isStoring = false ∧ w.hasRead = false := by
  have hsees := h.sees j w hj
  cases w with
  | write x record written =>
    obtain ⟨-, -, hrecord⟩ := hsees
    rw [hnone] at hrecord
    cases hrecord
  | flush x | sync x | cacheCreated x | cacheRead x =>
    obtain ⟨record, hrecord, -⟩ := Backed.record hsees
    rw [hnone] at hrecord
    cases hrecord
  | rollBack fault => exact absurd hnone hsees
  | decrypt c =>
    obtain ⟨record, -, hrecord, -⟩ := hsees
    rw [hnone] at hrecord
    cases hrecord
  | makeDirectory _ _ | createFile _ _ | insert _ _ | read | remove | purge _ => exact ⟨rfl, rfl⟩

/-- While a call has a draft, no other stores the file or has read it. -/
theorem Agreeing.idle_of_draft (h : s.Agreeing opens name) {w w' : Work}
    (hid : s.WorksOn name id w) (hdraft : w.isDraft = true) (hj : s.WorksOn name j w')
    (hne : j ≠ id) : w'.isStoring = false ∧ w'.hasRead = false := by
  refine ⟨?_, (h.draft id w hid hdraft).2 j w' hj⟩
  by_contra hstoring
  exact hne (h.storing j id w' w hj hid (by simpa using hstoring) (isStoring_of_isDraft hdraft))

/-- What is cached is still backed, or about to go, after a step that does not empty the cache. -/
theorem Agreeing.cached_or_purging (h : s.Agreeing opens call.name)
    (hcall : s.calls.find? id = some call)
    (hpurge : ∀ outcome, call.stage ≠ .work (.purge outcome)) (x : Secret)
    (hx : s.cached? call.name = some x) :
    s.Backed opens call.name x ∨ ∃ j outcome, j ≠ id ∧ s.WorksOn call.name j (.purge outcome) := by
  refine (h.cached x hx).imp_right ?_
  rintro ⟨j, outcome, hj⟩
  refine ⟨j, outcome, ?_, hj⟩
  rintro rfl
  exact hpurge outcome (hj.of_call hcall).2

/-- A step that leaves what is held and leads to nothing that has to do with the file. -/
theorem Agreeing.quiet (h : s.Agreeing opens call.name) (hcall : s.calls.find? id = some call)
    (hadv : s.Advances t id call reply change stage)
    (hrecord : change.recordAfter (s.record? call.name) = s.record? call.name)
    (hcached : change.cachedAfter (s.cached? call.name) = s.cached? call.name)
    (hpurge : ∀ outcome, call.stage ≠ .work (.purge outcome))
    (hidle : ∀ w, stage = .work w → w.isStoring = false ∧ w.hasRead = false) :
    t.Agreeing opens call.name := by
  refine h.keep hcall hadv hrecord
    (fun x hx => h.cached_or_purging hcall hpurge x (hcached ▸ hx))
    (fun w hw => sees_of_idle (hidle w hw).1 (hidle w hw).2) (fun w hw hstoring => ?_)
    (fun w hw hdraft => ?_) (fun j w hne hj hdraft => ?_)
  · rw [(hidle w hw).1] at hstoring
    cases hstoring
  · have hstoring := isStoring_of_isDraft hdraft
    rw [(hidle w hw).1] at hstoring
    cases hstoring
  · exact ⟨hcached.trans (h.draft j w hj hdraft).1, fun w' hw' => (hidle w' hw').2⟩

/-- A call that stores the file goes on storing it. -/
theorem Agreeing.store (h : s.Agreeing opens call.name) (hcall : s.calls.find? id = some call)
    {w w' : Work} (hwork : call.stage = .work w) (hw : w.isStoring = true)
    (hadv : s.Advances t id call reply .nothing (.work w'))
    (hsees : w'.Sees opens s call.name)
    (hdraft : w'.isDraft = true → s.cached? call.name = none ∧
      ∀ j v, s.WorksOn call.name j v → v.hasRead = false) : t.Agreeing opens call.name := by
  have hid : s.WorksOn call.name id w := ⟨call, hcall, rfl, hwork⟩
  have hpurge : ∀ outcome, call.stage ≠ .work (.purge outcome) := by
    intro outcome hpurge
    obtain rfl := Stage.work.inj (hwork.symm.trans hpurge)
    cases hw
  -- no other call stores the file
  have hothers {j : Nat} {v : Work} (hne : j ≠ id) (hj : s.WorksOn call.name j v) :
      v.isStoring = false := by
    by_contra hv
    exact hne (h.storing j id v w hj hid (by simpa using hv) hw)
  refine h.keep hcall hadv rfl (h.cached_or_purging hcall hpurge) (fun v hv => ?_)
    (fun v hv _ j v' hne hj => hothers hne hj) (fun v hv hdraft' => ?_)
    (fun j v hne hj hdraft' => ?_)
  · obtain rfl := Stage.work.inj hv
    exact hsees
  · obtain rfl := Stage.work.inj hv
    obtain ⟨hnone, hread⟩ := hdraft hdraft'
    exact ⟨hnone, fun j v' _ hj => hread j v' hj⟩
  · have hstoring := isStoring_of_isDraft hdraft'
    rw [hothers hne hj] at hstoring
    cases hstoring

/-- A call has read the file, of which there is no draft, or caches what is backed. -/
theorem Agreeing.read (h : s.Agreeing opens call.name) (hcall : s.calls.find? id = some call)
    (hadv : s.Advances t id call reply change stage)
    (hrecord : change.recordAfter (s.record? call.name) = s.record? call.name)
    (hcached : ∀ x, change.cachedAfter (s.cached? call.name) = some x →
      s.Backed opens call.name x ∨ ∃ j outcome, j ≠ id ∧ s.WorksOn call.name j (.purge outcome))
    (hdraft : ∀ j w, j ≠ id → s.WorksOn call.name j w → w.isDraft = false)
    (hsees : ∀ w, stage = .work w → w.isStoring = false ∧ w.Sees opens s call.name) :
    t.Agreeing opens call.name := by
  refine h.keep hcall hadv hrecord hcached (fun w hw => (hsees w hw).2) (fun w hw hstoring => ?_)
    (fun w hw hdraft' => ?_) (fun j w hne hj hdraft' => ?_)
  · rw [(hsees w hw).1] at hstoring
    cases hstoring
  · have hstoring := isStoring_of_isDraft hdraft'
    rw [(hsees w hw).1] at hstoring
    cases hstoring
  · rw [hdraft j w hne hj] at hdraft'
    cases hdraft'

/-- The work that a call begins with has nothing to do with the file. -/
theorem idle_of_first {w : Work} (h : w.First) : w.isStoring = false ∧ w.hasRead = false := by
  cases w <;> first | exact ⟨rfl, rfl⟩ | exact h.elim

/-- Without a file nothing is cached while a call works on the name that shares its lock. -/
theorem Agreeing.cached_eq_none (h : s.Agreeing opens name) (hsound : s.Sound)
    (hnone : s.record? name = none) {w : Work} (hid : s.WorksOn name id w)
    (hmode : w.mode = .shared) : s.cached? name = none := by
  cases hcached : s.cached? name with
  | none => rfl
  | some x =>
    rcases h.cached x hcached with hbacked | ⟨j, outcome, hj⟩
    · obtain ⟨record, hrecord, -⟩ := hbacked.record
      rw [hnone] at hrecord
      cases hrecord
    · -- a call that purges the name would have its lock alone
      obtain rfl := hsound.eq_of_exclusive hj rfl hid
      obtain rfl := hid.unique hj
      cases hmode

/-- Each step keeps agreement about the key of its call, if no calls race. -/
theorem Agreeing.advances (hfiles : s.settings.backend ≠ .memory) (hsound : s.Sound)
    (hcarrying : Carrying opens s) (h : s.Agreeing opens call.name)
    (hcall : s.calls.find? id = some call) (hhonest : reply.Honest opens call.stage)
    (hrolls : call.stage.work?.any Work.isRollBack = true →
      s.removal call.name reply.device = .done)
    (hreads : call.stage = .work .read → ¬s.SomeWorks call.name Work.isDraft)
    (hfails : stage.work?.any Work.isRollBack = true →
      s.cached? call.name = none ∧ ¬s.SomeWorks call.name Work.hasRead)
    (hadv : s.Advances t id call reply change stage) : t.Agreeing opens call.name := by
  obtain ⟨name, operation, before⟩ := call
  have hfits := hsound.fits id _ hcall
  have hcarries := hcarrying id _ hcall
  dsimp only at h hfits hcarries hhonest hrolls hreads hfails hadv ⊢
  have hworks {w : Work} (hw : before = .work w) : s.WorksOn name id w := ⟨_, hcall, rfl, hw⟩
  have hsees {w : Work} (hw : before = .work w) := h.sees id w (hworks hw)
  -- nobody else works on the name while the call has its lock alone
  have halone {w : Work} (hw : before = .work w) (hmode : w.mode = .exclusive) {j : Nat} {w' : Work}
      (hne : j ≠ id) (hj : s.WorksOn name j w') : False :=
    hne (hsound.eq_of_exclusive (hworks hw) hmode hj).symm
  -- nobody else has a draft that the call could have read, or stores the file beside it
  have hnoDraft {w : Work} (hw : before = .work w) (hkind : w.hasRead = true ∨ w.isStoring = true)
      (j : Nat) (w' : Work) (hne : j ≠ id) (hj : s.WorksOn name j w') : w'.isDraft = false := by
    by_contra hdraft
    obtain ⟨hstoring, hread⟩ := h.idle_of_draft hj (by simpa using hdraft) (hworks hw) hne.symm
    rcases hkind with hkind | hkind
    · rw [hread] at hkind
      cases hkind
    · rw [hstoring] at hkind
      cases hkind
  -- a call fails to store its file only if nobody has read it
  have hfail {fault : FileFault} (hstage : stage = .work (.rollBack fault)) :
      s.cached? name = none ∧ ∀ j v, s.WorksOn name j v → v.hasRead = false := by
    obtain ⟨hnone, hread⟩ := hfails (by rw [hstage]; rfl)
    refine ⟨hnone, fun j v hj => ?_⟩
    by_contra hv
    exact hread (someWorks_iff.2 ⟨j, v, hj, by simpa using hv⟩)
  have hnext := hadv.next
  cases hnext with
  | granted =>
    -- no call begins with work that has to do with the file
    refine h.quiet hcall hadv rfl rfl (by simp) fun w hw => ?_
    obtain rfl := Stage.work.inj hw
    exact idle_of_first hfits.2.2
  | fileMade hnone hreaches =>
    -- there was no file, so that nobody has read it and nothing is cached
    refine Agreeing.replace hadv (fun j w _ hj => h.idle_of_none hnone hj)
      (.inl (h.cached_eq_none hsound hnone (hworks rfl) rfl)) fun w hw => ?_
    obtain rfl := Stage.work.inj hw
    refine ⟨⟨(hcarries _ _ rfl).length_pos, hreaches.advances hadv, ?_⟩, rfl⟩
    rw [hadv.record, if_pos rfl]
    rfl
  | @wroteSome secret record content written limit hcontent hlt =>
    obtain ⟨hbefore, hreaches, hrecord⟩ := hsees (w := .write secret record written) rfl
    obtain rfl := Option.some.inj (hcontent.symm.trans hrecord)
    refine Agreeing.replace hadv (fun j w hne hj => h.idle_of_draft (hworks rfl) rfl hj hne)
      (.inl (h.draft id _ (hworks rfl) rfl).1) fun w hw => ?_
    obtain rfl := Stage.work.inj hw
    refine ⟨⟨hlt, hreaches.advances hadv, ?_⟩, rfl⟩
    rw [hadv.record, if_pos rfl, Disk.overwrite_take record hbefore.le]
    rfl
  | @wroteAll secret record content written limit hcontent hlast =>
    obtain ⟨hbefore, hreaches, hrecord⟩ := hsees (w := .write secret record written) rfl
    obtain rfl := Option.some.inj (hcontent.symm.trans hrecord)
    refine Agreeing.replace hadv (fun j w hne hj => h.idle_of_draft (hworks rfl) rfl hj hne)
      (.inl (h.draft id _ (hworks rfl) rfl).1) fun w hw => ?_
    obtain rfl := Stage.work.inj hw
    refine ⟨⟨hfits.1, hreaches.advances hadv, record, ?_, ?_⟩, rfl⟩
    · rw [hadv.record, if_pos rfl, Disk.overwrite_take record hbefore.le,
        List.take_of_length_le hlast]
      rfl
    · rw [hadv.settings]
      exact (hcarries secret record rfl).secretOf_eq
  -- a failure leaves the file to be removed, which nobody has read
  | @writeFailed secret record written fault =>
    obtain ⟨-, -, hrecord⟩ := hsees (w := .write secret record written) rfl
    exact h.store hcall rfl rfl hadv (by rw [Work.Sees, hrecord]; simp) fun _ => hfail rfl
  | @flushed secret =>
    exact h.store hcall rfl rfl hadv (hsees (w := .flush secret) rfl) fun hdraft => by cases hdraft
  | @flushFailed secret fault =>
    obtain ⟨record, hrecord, -⟩ := Backed.record (hsees (w := .flush secret) rfl)
    exact h.store hcall rfl rfl hadv (by rw [Work.Sees, hrecord]; simp) fun _ => hfail rfl
  | @synced secret =>
    exact h.store hcall rfl rfl hadv (hsees (w := .sync secret) rfl) fun hdraft => by cases hdraft
  | @syncFailed secret fault =>
    obtain ⟨record, hrecord, -⟩ := Backed.record (hsees (w := .sync secret) rfl)
    exact h.store hcall rfl rfl hadv (by rw [Work.Sees, hrecord]; simp) fun _ => hfail rfl
  | rolledBack =>
    -- nobody has read the file that goes
    exact Agreeing.replace hadv (fun j w hne hj => h.idle_of_draft (hworks rfl) rfl hj hne)
      (.inl (h.draft id _ (hworks rfl) rfl).1) fun w hw => by cases hw
  | notRolledBack hfailed => exact absurd (hrolls rfl) hfailed
  | inserted | insertTaken => exact absurd hfits.2.2 hfiles
  -- the file is complete when its secret is cached
  | @cachedCreated secret =>
    have hbacked : s.Backed opens name secret := hsees (w := .cacheCreated secret) rfl
    refine h.read hcall hadv rfl (fun x hx => .inl ?_)
      (hnoDraft (w := .cacheCreated secret) rfl (.inr rfl)) fun w hw => by cases hw
    obtain rfl := Option.some.inj hx
    exact hbacked
  -- a call reads a file only when it is complete, and no other call will change it
  | @readSecret record secret hrecord hreaches hkey hread =>
    refine h.read hcall hadv rfl (h.cached_or_purging hcall (by simp)) (fun j w _ hj => ?_)
      fun w hw => ?_
    · by_contra hdraft
      exact hreads rfl (someWorks_iff.2 ⟨j, w, hj, by simpa using hdraft⟩)
    · obtain rfl := Stage.work.inj hw
      exact ⟨rfl, hfits.1, hreaches, record, hrecord, by rw [secretOf, hkey, hread]; rfl⟩
  | @readCiphertext record c key hrecord hreaches hkey hread =>
    refine h.read hcall hadv rfl (h.cached_or_purging hcall (by simp)) (fun j w _ hj => ?_)
      fun w hw => ?_
    · by_contra hdraft
      exact hreads rfl (someWorks_iff.2 ⟨j, w, hj, by simpa using hdraft⟩)
    · obtain rfl := Stage.work.inj hw
      exact ⟨rfl, record, hreaches, hrecord, by rw [secretOf, hkey, hread]; rfl⟩
  -- the record stays while it is decrypted
  | @opened c secret hsecret =>
    obtain ⟨record, hreaches, hrecord, hopens⟩ := hsees (w := .decrypt c) rfl
    refine h.read hcall hadv rfl (h.cached_or_purging hcall (by simp))
      (hnoDraft (w := .decrypt c) rfl (.inl rfl)) fun w hw => ?_
    obtain rfl := Stage.work.inj hw
    exact ⟨rfl, hfits.1, hreaches, record, hrecord, hopens.trans (hhonest _ hsecret)⟩
  | @cachedRead secret =>
    have hbacked : s.Backed opens name secret := hsees (w := .cacheRead secret) rfl
    refine h.read hcall hadv rfl (fun x hx => ?_)
      (hnoDraft (w := .cacheRead secret) rfl (.inl rfl)) fun w hw => by cases hw
    obtain rfl := Option.some.inj hx
    cases hcached : s.cached? name with
    | none => exact .inl hbacked
    | some y => exact h.cached_or_purging hcall (by simp) y hcached
  -- the lock is held alone, so that only what is cached is left of the key
  | removed =>
    refine Agreeing.replace hadv (fun j w hne hj => (halone rfl rfl hne hj).elim) (.inr ⟨_, rfl⟩)
      fun w hw => ?_
    obtain rfl := Stage.work.inj hw
    exact ⟨trivial, rfl⟩
  | purged =>
    exact Agreeing.replace hadv (fun j w hne hj => (halone rfl rfl hne hj).elim) (.inl rfl)
      fun w hw => by cases hw
  | _ => exact h.quiet hcall hadv rfl rfl (by simp) (by simp [Work.isStoring, Work.hasRead])

/-! ### Runs -/

variable {settings : Settings} {disk : Disk} {now : Nat} {moves : List Move} {directory : String}

theorem agreeing_new : (new settings disk now).Agreeing opens name := by
  have hidle (j : Nat) (w : Work) : ¬(new settings disk now).WorksOn name j w := by
    rintro ⟨call, hcall, -⟩
    simp [new] at hcall
  exact ⟨fun x hx => (by cases hx), fun j w hj => absurd hj (hidle j w),
    fun i j w w' hi => absurd hi (hidle i w), fun j w hj => absurd hj (hidle j w)⟩

theorem spares_call (s : Store) (id : Nat) (n : String) (operation : Operation) (name : String) :
    s.Spares (s.call id n operation) name :=
  ⟨rfl, fun h => h, rfl⟩

/-- A move that no call makes spares all files. -/
theorem Fades.spares (hfades : s.Fades t) (name : String) : s.Spares t name where
  settings := hfades.settings
  reaches h := by
    rw [Reaches, hfades.settings, hfades.disk]
    exact h
  record := hfades.record? name

theorem Agreeing.newCall (h : s.Agreeing opens name) (hfresh : s.calls.find? id = none)
    {n : String} {operation : Operation} : (s.call id n operation).Agreeing opens name :=
  h.spares (spares_call s id n operation name) (fun _ hx => hx) fun _ _ => worksOn_call_iff hfresh

theorem Agreeing.fades (h : s.Agreeing opens name) (hfades : s.Fades t) :
    t.Agreeing opens name :=
  h.spares (hfades.spares name) (hfades.cached name) fun _ _ => hfades.worksOn_iff

/-- The cache, the file of a key and the calls that work on it agree after a run without races. -/
theorem Legal.agreeing (hfiles : settings.backend = .files directory)
    (hlegal : Legal (fun s m => Honest opens s m ∧ RollsBack name s m ∧ RaceFree name s m)
      (new settings disk now) moves) :
    let s := (new settings disk now).run moves
    s.settings = settings ∧ Carrying opens s ∧ s.Agreeing opens name := by
  refine (hlegal.keeps (P := fun s => s.settings = settings ∧ Carrying opens s ∧
    s.Agreeing opens name) ?_ ?_ ?_ (sound_new settings disk now)
    ⟨rfl, carrying_new settings disk now, agreeing_new⟩).2
  case refine_1 =>
    rintro s id n operation - ⟨hsettings, hcarrying, hagreeing⟩ hfresh -
    exact ⟨hsettings, hcarrying.newCall, hagreeing.newCall hfresh⟩
  case refine_2 =>
    rintro s id call reply change stage hsound ⟨hsettings, hcarrying, hagreeing⟩ hcall
      ⟨hhonest, hrolls, hrace⟩ hadv
    have hhonest := hhonest call hcall
    refine ⟨hadv.settings.trans hsettings, hcarrying.advances hcall hhonest hadv, ?_⟩
    -- a step for another key has nothing to do with the file
    by_cases hname : call.name = name
    · subst hname
      obtain ⟨hreads, hfails⟩ := hrace call hcall rfl
      have hstage : (s.step id reply).stage? id = some stage := by
        rw [stage?, hadv.calls, if_pos rfl]
        rfl
      refine hagreeing.advances ?_ hsound hcarrying hcall hhonest (hrolls call hcall rfl) hreads
        (hfails stage hstage) hadv
      rw [hsettings, hfiles]
      simp
    · exact hagreeing.elsewhere hcall hadv hname
  case refine_3 =>
    rintro s t - ⟨hsettings, hcarrying, hagreeing⟩ hfades
    exact ⟨hfades.settings.trans hsettings, hcarrying.fades hfades, hagreeing.fades hfades⟩

end

end Keyring.Store
