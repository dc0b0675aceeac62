import Keyring.Proofs.Cache.Punctual
import Keyring.Proofs.Store.Ledger

/-!
# What a call does to the time of last use

A look-up that finds its name counts as use, whoever makes it: a call that gets a key, and also a
call that is about to create one and is refused because its name is cached. What is put into the
cache is used at that moment. A call that adds what it has read to a name that another call has put
in meanwhile leaves the time of last use as it is.

Whatever the environment answers, a call that runs alone therefore marks its name with the moment
in three ways, and otherwise leaves the mark or takes it away.

- `used?`: when what is cached under a name was last used;
- `Stage.remark`, `used?_cacheAfter`: the mark after a step;
- `Stage.Marked`, `Next.marked`: the mark when a call is at a stage, and that each step leads to it;
- `Marks`, `Marks.runFor`: what a call that runs alone has done to the marks.
-/

namespace Keyring

namespace SweptCache

/-- When the entry of a name was last used. -/
def used? (c : SweptCache) (name : String) : Option Nat := c.stampBy? .unused name

@[simp] theorem used?_get (c : SweptCache) (a b : String) :
    (c.get a).2.used? b = if b = a then (c.used? a).map fun _ => c.now else c.used? b := by
  unfold SweptCache.get Cache.get used? stampBy? held?
  split <;> next h => by_cases hb : b = a <;> simp [hb, h, Sweep.Policy.stamp]

@[simp] theorem used?_set (c : SweptCache) (a b : String) (secret : Secret) :
    (c.set a secret).used? b = if b = a then some c.now else c.used? b := by
  by_cases hb : b = a <;> simp [SweptCache.set, Cache.set, used?, stampBy?, held?, hb]

@[simp] theorem used?_add (c : SweptCache) (a b : String) (secret : Secret) :
    (c.add a secret).2.used? b = if b = a then some ((c.used? a).getD c.now) else c.used? b := by
  unfold SweptCache.add Cache.add used? stampBy? held?
  split <;> next h => by_cases hb : b = a <;> simp [hb, h]

@[simp] theorem used?_erase (c : SweptCache) (a b : String) :
    (c.erase a).used? b = if b = a then none else c.used? b := by
  by_cases hb : b = a <;> simp [SweptCache.erase, Cache.erase, used?, stampBy?, held?, hb]

theorem used?_eq_none_iff {c : SweptCache} {name : String} :
    c.used? name = none ↔ c.cache.find? name = none := by
  simp [used?, stampBy?, held?, Cache.find?]

end SweptCache

namespace Store

/-- When what the cache holds under a name was last used. -/
def used? (s : Store) (name : String) : Option Nat := s.cache.used? name

/-- The mark of the name of a call after a step at a stage, if it was `before`. -/
def Stage.remark (now : Nat) (before : Option Nat) : Stage → Option Nat
  | .lookUpNew _ | .lookUp => before.map fun _ => now
  | .work (.cacheCreated _) => some now
  | .work (.cacheRead _) => some (before.getD now)
  | .work (.purge _) => none
  | _ => before

/-- How a call that has ended has marked its name, if the mark was `before` and is `after`. -/
def Operation.Marks (name : String) (now : Nat) (before after : Option Nat) :
    Operation → Outcome → Prop
  | .create _, .ok _ | .get, .ok _ => KeyName.Valid name ∧ after = some now
  -- a call that is refused because its name is cached has used what is cached
  | .create _, .error error =>
    after = if error = .keyExists then before.map fun _ => now else before
  | .get, .error _ => after = before
  | .delete, _ => after = if KeyName.Valid name then none else before

/-- The mark of the name of a call that is at a stage, if it was `before` the call. A call that has
gone beyond the look-up has found nothing, or deletes its key. -/
def Stage.Marked (name : String) (operation : Operation) (now : Nat) (before after : Option Nat) :
    Stage → Prop
  | .start | .lookUpNew _ | .lookUp => after = before
  | .obtain .remove | .request .remove | .wait .remove | .work .remove | .work (.purge _) =>
    after = before
  | .leave outcome | .finished outcome => Operation.Marks name now before after operation outcome
  | _ => before = none ∧ after = none

section

variable {s t : Store} {id : Nat} {name : String} {operation : Operation} {reply : Reply}
  {stage stage' : Stage} {change : Change} {call : Call} {before after : Option Nat} {now : Nat}

theorem used?_eq_none_iff : s.used? name = none ↔ s.cached? name = none :=
  SweptCache.used?_eq_none_iff

theorem exists_used? {held : Secret} (h : s.cached? name = some held) :
    ∃ time, s.used? name = some time :=
  Option.ne_none_iff_exists'.1 (mt used?_eq_none_iff.1 (by simp [h]))

/-- A step marks the name of its call only. -/
theorem used?_cacheAfter (s : Store) (name n : String) (stage : Stage) :
    (stage.cacheAfter s name).used? n =
      if n = name then stage.remark s.cache.now (s.used? name) else s.used? n := by
  have hsame : s.used? n = if n = name then s.used? name else s.used? n := by
    split
    case isTrue h => rw [h]
    case isFalse => rfl
  cases stage with
  | start =>
    obtain ⟨sweeps, hsweeps⟩ := s.exists_opened name
    rw [Stage.cacheAfter, hsweeps]
    exact hsame
  | lookUpNew | lookUp => exact SweptCache.used?_get _ _ _
  | work w =>
    cases w with
    | cacheCreated secret => exact SweptCache.used?_set _ _ _ _
    | cacheRead secret => exact SweptCache.used?_add _ _ _ _
    | purge outcome => exact SweptCache.used?_erase _ _ _
    | _ => exact hsame
  | _ => exact hsame

/-- A name that is not valid is not refused as taken. -/
theorem ne_keyExists_of_validate {error : Error} (h : KeyName.validate name = .error error) :
    error ≠ .keyExists := by
  unfold KeyName.validate at h
  split at h
  · rw [← Except.error.inj h]
    exact Error.noConfusion
  · cases h

/-- Each step leads to the mark that is due. -/
theorem Next.marked (h : Next s id name operation reply stage change stage')
    (hfits : stage.Fits s.settings name operation)
    (hmarked : stage.Marked name operation now before (s.used? name)) :
    stage'.Marked name operation now before (stage.remark now (s.used? name)) := by
  cases h with
  | refused herror =>
    have hinvalid : ¬KeyName.Valid name := fun hvalid => by
      cases (KeyName.validate_eq_ok_iff.2 hvalid).symm.trans herror
    have hother := ne_keyExists_of_validate herror
    cases operation with
    | create secret => exact hmarked.trans (if_neg hother).symm
    | get => exact hmarked
    | delete => exact hmarked.trans (if_neg hinvalid).symm
  | taken hheld =>
    -- the look-up has found its name
    obtain ⟨-, rfl⟩ := hfits
    show (s.used? name).map _ = if _ then _ else _
    rw [show s.used? name = before from hmarked, if_pos rfl]
  | hit hheld =>
    obtain ⟨hvalid, rfl⟩ := hfits
    obtain ⟨time, htime⟩ := exists_used? hheld
    refine ⟨hvalid, ?_⟩
    rw [Stage.remark, htime]
    rfl
  | free hnone | miss hnone =>
    have hunmarked := used?_eq_none_iff.2 hnone
    refine ⟨hmarked.symm.trans hunmarked, ?_⟩
    rw [Stage.remark, hunmarked]
    rfl
  | @obtain work | @request work => cases work <;> exact hmarked
  | @granted work | @waiting work =>
    obtain ⟨-, -, hfirst⟩ := hfits
    cases work <;> first | exact hmarked | cases hfirst
  | plain | sealed =>
    -- the work that stores the record depends on the backend
    show (Stage.obtain (s.settings.backend.storing _ _)).Marked name operation now before _
    cases s.settings.backend <;> exact hmarked
  | rolledBack | notRolledBack =>
    obtain ⟨-, ⟨secret, rfl⟩, -⟩ := hfits
    obtain ⟨rfl, hunmarked⟩ := hmarked
    exact hunmarked
  | _ => simp_all [Stage.remark, Stage.Marked, Stage.Fits, Work.Fits, Operation.Marks]

/-! ### A call that runs alone -/

/-- What a call that runs alone has done to the cache when it is at a stage. -/
structure Marks (s t : Store) (call : Call) : Prop where
  tally : s.Tally t call
  others : ∀ n, n ≠ call.name → t.used? n = s.used? n
  own : call.stage.Marked call.name call.operation s.cache.now (s.used? call.name)
    (t.used? call.name)

/-- A call that has only been made has marked nothing. -/
theorem marks_call (s : Store) (id : Nat) (name : String) (operation : Operation) :
    s.Marks (s.call id name operation) ⟨name, operation, .start⟩ :=
  ⟨tally_call s id name operation, fun _ _ => rfl, rfl⟩

/-- Each step of a call keeps to the marks. -/
theorem Marks.step (h : s.Marks t call) (hsound : t.Sound) (hcall : t.calls.find? id = some call)
    (reply : Reply) :
    s.Marks (t.step id reply) { call with stage := (t.perform id call reply).2 } := by
  have hfits := hsound.fits id call hcall
  obtain ⟨⟨change, hadv⟩, -⟩ := exists_advances_perform hcall hfits reply
  have hcache := (spends_perform id reply hfits).cache
  have hused (n : String) : (t.step id reply).used? n = if n = call.name then
      call.stage.remark t.cache.now (t.used? call.name) else t.used? n := by
    rw [Store.step, hcall, ← used?_cacheAfter, ← hcache]
    rfl
  refine ⟨h.tally.step hsound hcall reply, fun n hn => ?_, ?_⟩
  · rw [hused, if_neg hn, h.others n hn]
  · rw [hused, if_pos rfl, h.tally.now]
    exact hadv.next.marked hfits h.own

/-- So does a run of the call. -/
theorem Marks.runFor {answers : Nat → Stage → Reply} {steps : Nat} (h : s.Marks t call)
    (hsound : t.Sound) (hcall : t.calls.find? id = some call) :
    ∃ stage, (t.runFor answers id steps).calls.find? id = some { call with stage } ∧
      s.Marks (t.runFor answers id steps) { call with stage } ∧
      (t.runFor answers id steps).Sound ∧
      ∀ j, j ≠ id → (t.runFor answers id steps).calls.find? j = t.calls.find? j := by
  induction steps generalizing t call with
  | zero => exact ⟨call.stage, hcall, h, hsound, fun _ _ => rfl⟩
  | succ steps ih =>
    have hfound : t.stage? id = some call.stage := by rw [stage?, hcall]; rfl
    obtain ⟨⟨change, hadv⟩, -⟩ :=
      exists_advances_perform hcall (hsound.fits id call hcall) (answers steps call.stage)
    have hcall' := hadv.calls id
    rw [if_pos rfl] at hcall'
    obtain ⟨stage, hlast, hmarks, hsound', hothers⟩ :=
      ih (h.step hsound hcall _) (hsound.step hcall _) hcall'
    rw [Store.runFor, hfound]
    refine ⟨stage, hlast, hmarks, hsound', fun j hj => (hothers j hj).trans ?_⟩
    rw [hadv.calls, if_neg hj]

/-- A mark that is new is that of a call that gives a secret, creates its key, or is refused to do
so because its name is cached. -/
theorem Marks.uses {outcome : Outcome} {other : String} {time : Nat}
    (h : s.Marks t ⟨name, operation, .finished outcome⟩) (hused : t.used? other = some time) :
    s.used? other = some time ∨ other = name ∧ time = s.cache.now ∧
      ((KeyName.Valid name ∧ operation ≠ .delete ∧ ∃ answer, outcome = .ok answer) ∨
        (s.cached? name ≠ none ∧ (∃ secret, operation = .create secret) ∧
          outcome = .error .keyExists)) := by
  by_cases hother : other = name
  case neg => exact .inl ((h.others other hother).symm.trans hused)
  subst hother
  have hown : Operation.Marks other s.cache.now (s.used? other) (t.used? other) operation outcome :=
    h.own
  rw [hused] at hown
  cases operation with
  | create secret =>
    cases outcome with
    | ok answer =>
      obtain ⟨hvalid, htime⟩ := hown
      exact .inr ⟨rfl, Option.some.inj htime, .inl ⟨hvalid, Operation.noConfusion, answer, rfl⟩⟩
    | error error =>
      have hown : some time = if error = .keyExists then (s.used? other).map fun _ => s.cache.now
        else s.used? other := hown
      split at hown
      · next hexists =>
        obtain ⟨before, hbefore, htime⟩ := Option.map_eq_some_iff.1 hown.symm
        refine .inr ⟨rfl, htime.symm, .inr ⟨fun hnone => ?_, ⟨secret, rfl⟩, hexists ▸ rfl⟩⟩
        cases (used?_eq_none_iff.2 hnone).symm.trans hbefore
      · exact .inl hown.symm
  | get =>
    cases outcome with
    | ok answer =>
      obtain ⟨hvalid, htime⟩ := hown
      exact .inr ⟨rfl, Option.some.inj htime, .inl ⟨hvalid, Operation.noConfusion, answer, rfl⟩⟩
    | error error => exact .inl hown.symm
  | delete =>
    have hown : some time = if KeyName.Valid other then none else s.used? other := hown
    split at hown
    · cases hown
    · exact .inl hown.symm

end

end Store

end Keyring
