import Keyring.Proofs.Store.Simulation

/-!
# A store in memory is linearizable

Whatever calls are made to a key store in memory, in whatever order their steps are made, whenever
sweeps run and the key management system fails: the calls can be put into an order in which each
gives what it would give if it were done at once, and in which no call comes before one that was
over when it was made. Calls that fail because of the key management system are left out: they do
nothing.

* `Event`, `SecretMap.Explains` — calls in an order, done at once one after the other;
* `Precedes` — one call was over before another was made;
* `Linearizes` — an order of the calls of a run explains them;
* `exists_linearizes` — there is one for every run.
-/

namespace Keyring.Store

/-- A call with its outcome. -/
structure Event where
  /-- The number of the call. -/
  id : Nat
  /-- The name of the key. -/
  name : String
  /-- What it is to do. -/
  operation : Operation
  /-- How it ends. -/
  outcome : Outcome

/-- The map after calls that are done at once, one after the other. -/
def SecretMap.replay (m : SecretMap) (order : List Event) : SecretMap :=
  order.foldl (fun m e => (m.perform e.name e.operation).2) m

/-- Each call ends in the way it does if they are done at once, one after the other. -/
def SecretMap.Explains : SecretMap → List Event → Prop
  | _, [] => True
  | m, e :: order =>
    (m.perform e.name e.operation).1 = e.outcome ∧
      SecretMap.Explains (m.perform e.name e.operation).2 order

/-- One call was over before another was made. -/
def Precedes (s : Store) (moves : List Move) (a b : Nat) : Prop :=
  ∃ before, before <+: moves ∧ (∃ outcome, (s.run before).outcome? a = some outcome) ∧
    (s.run before).calls.find? b = none

/-- The key management system failed when a call asked it for something. -/
def Refused (s : Store) (moves : List Move) (id : Nat) : Prop :=
  ∃ before reply call, before ++ [.step id reply] <+: moves ∧
    (s.run before).calls.find? id = some call ∧ reply.Refuses call.stage

/-- An order of calls explains what they gave in a run. -/
structure Linearizes (s : Store) (moves : List Move) (order : List Event) : Prop where
  /-- No call is done twice. -/
  distinct : (order.map Event.id).Nodup
  /-- All are calls of the run. -/
  called : ∀ e ∈ order, ∃ call, (s.run moves).calls.find? e.id = some call ∧
    call.name = e.name ∧ call.operation = e.operation
  /-- Those that are over ended as they should. -/
  outcome_eq : ∀ e ∈ order, ∀ outcome, (s.run moves).outcome? e.id = some outcome →
    outcome = e.outcome
  /-- Every call that is over is among them, unless it ended in a failure of the key management
  system. -/
  complete : ∀ id outcome, (s.run moves).outcome? id = some outcome → ¬Failed outcome →
    ∃ e ∈ order, e.id = id
  /-- A call ends in such a failure only if there was one. -/
  refused : ∀ id outcome, (s.run moves).outcome? id = some outcome → Failed outcome →
    Refused s moves id
  /-- A call that ends in such a failure is not among them. -/
  not_failed : ∀ e ∈ order, ¬Failed e.outcome
  /-- Each ends in the way it does if they are done at once, in this order, from no secrets. -/
  explained : SecretMap.Explains (fun _ => none) order
  /-- None comes before one that was over when it was made. -/
  ordered : order.Pairwise fun a b => ¬Precedes s moves b.id a.id

variable {opens : Ciphertext → Option Secret} {s t : Store} {id a b : Nat} {reply : Reply}
  {call : Call} {stage : Stage} {change : Change} {m : SecretMap} {moves : List Move} {move : Move}
  {order : List Event} {e : Event}

theorem SecretMap.replay_append (m : SecretMap) (order : List Event) (e : Event) :
    m.replay (order ++ [e]) = ((m.replay order).perform e.name e.operation).2 := by
  rw [SecretMap.replay, List.foldl_append]
  rfl

/-- One more call is explained if it is in the map after the others. -/
theorem SecretMap.explains_append :
    m.Explains (order ++ [e]) ↔
      m.Explains order ∧ ((m.replay order).perform e.name e.operation).1 = e.outcome := by
  induction order generalizing m with
  | nil => simp [SecretMap.Explains, SecretMap.replay]
  | cons a order ih =>
    rw [List.cons_append, SecretMap.Explains, ih, SecretMap.Explains, and_assoc]
    rfl

/-- What is explained has not failed. -/
theorem SecretMap.Explains.not_failed (h : m.Explains order) : ∀ e ∈ order, ¬Failed e.outcome := by
  induction order generalizing m with
  | nil => simp
  | cons a order ih =>
    intro e he
    rcases List.mem_cons.1 he with rfl | he
    · rw [← h.1]
      exact m.not_failed_perform _ _
    · exact ih h.2 e he

/-! ### Time -/

variable {allows : Store → Move → Prop}

/-- Whoever comes before another call is over. -/
theorem Precedes.over (h : Precedes s moves a b) (hsound : s.Sound)
    (hlegal : Legal allows s moves) : ∃ outcome, (s.run moves).outcome? a = some outcome := by
  obtain ⟨before, ⟨after, rfl⟩, ⟨outcome, hover⟩, -⟩ := h
  obtain ⟨hbefore, hafter⟩ := legal_append.1 hlegal
  refine ⟨outcome, ?_⟩
  rw [run_append]
  exact outcome?_run (hbefore.sound hsound) hafter hover

/-- One more move puts no call before one that was made already. -/
theorem Precedes.of_append (h : Precedes s (moves ++ [move]) a b)
    (hcall : (s.run (moves ++ [move])).calls.find? b = some call) : Precedes s moves a b := by
  obtain ⟨before, hprefix, hover, hnone⟩ := h
  -- the call has been made by the end of the run
  rcases List.prefix_concat_iff.1 hprefix with rfl | hprefix
  · rw [hcall] at hnone
    cases hnone
  · exact ⟨before, hprefix, hover, hnone⟩

/-! ### The order of a run -/

/-- What an order of calls has to do with a store: each has the verdict that the order gives it, and
each that has a verdict is in the order, unless the key management system failed. -/
structure Accounts (s : Store) (order : List Event) : Prop where
  distinct : (order.map Event.id).Nodup
  verdict : ∀ e ∈ order, ∃ call, s.calls.find? e.id = some call ∧ call.name = e.name ∧
    call.operation = e.operation ∧ call.stage.verdict? = some e.outcome
  complete : ∀ id call, s.calls.find? id = some call → ∀ outcome,
    call.stage.verdict? = some outcome → ¬Failed outcome → ∃ e ∈ order, e.id = id

theorem Accounts.newCall (h : s.Accounts order) (hfresh : s.calls.find? id = none) (name : String)
    (operation : Operation) : (s.call id name operation).Accounts order where
  distinct := h.distinct
  verdict e he := by
    obtain ⟨call, hcall, hrest⟩ := h.verdict e he
    have hne : e.id ≠ id := by
      rintro heq
      rw [heq, hfresh] at hcall
      cases hcall
    exact ⟨call, by simpa [Store.call, hne] using hcall, hrest⟩
  complete := forall_calls_call (fun outcome hverdict => by cases hverdict) h.complete

theorem Accounts.fades (h : s.Accounts order) (hfades : s.Fades t) : t.Accounts order := by
  refine ⟨h.distinct, ?_, ?_⟩ <;> rw [hfades.calls]
  exacts [h.verdict, h.complete]

/-- A step that leaves the verdict of its call, or gives it one that says that it failed, leaves the
order as it is. -/
theorem Accounts.same (h : s.Accounts order) (hcall : s.calls.find? id = some call)
    (hadv : s.Advances t id call reply change stage)
    (hverdict : stage.verdict? = call.stage.verdict? ∨ call.stage.verdict? = none ∧
      ∃ outcome, stage.verdict? = some outcome ∧ Failed outcome) : t.Accounts order where
  distinct := h.distinct
  verdict e he := by
    obtain ⟨other, hother, hname, hoperation, houtcome⟩ := h.verdict e he
    -- the call that makes the step keeps the verdict that it has in the order
    by_cases hid : e.id = id
    · rw [hid, hcall] at hother
      obtain rfl := Option.some.inj hother
      refine ⟨{ call with stage }, by rw [hadv.calls, if_pos hid], hname, hoperation, ?_⟩
      rcases hverdict with hsame | ⟨hnone, -⟩
      · exact hsame.trans houtcome
      · rw [hnone] at houtcome
        cases houtcome
    · exact ⟨other, by rw [hadv.calls, if_neg hid, hother], hname, hoperation, houtcome⟩
  complete := by
    refine hadv.forall_calls (fun outcome houtcome hfailed => ?_)
      fun j other _ => h.complete j other
    rcases hverdict with hsame | ⟨-, failed, hfails, hfailed'⟩
    · exact h.complete id call hcall outcome (hsame.symm.trans houtcome) hfailed
    · obtain rfl := Option.some.inj (hfails.symm.trans houtcome)
      exact absurd hfailed' hfailed

/-- A step that gives its call a verdict puts it at the end of the order. -/
theorem Accounts.append (h : s.Accounts order) (hcall : s.calls.find? id = some call)
    (hadv : s.Advances t id call reply change stage) {outcome : Outcome}
    (hnone : call.stage.verdict? = none) (houtcome : stage.verdict? = some outcome) :
    t.Accounts (order ++ [⟨id, call.name, call.operation, outcome⟩]) := by
  -- every call of the order has a verdict, and this one had none
  have hnew : ∀ e ∈ order, e.id ≠ id := by
    rintro e he rfl
    obtain ⟨other, hother, -, -, hverdict⟩ := h.verdict e he
    obtain rfl := Option.some.inj (hcall.symm.trans hother)
    rw [hnone] at hverdict
    cases hverdict
  refine ⟨?_, fun e he => ?_, ?_⟩
  · rw [List.map_append, List.nodup_append]
    refine ⟨h.distinct, List.nodup_singleton _, ?_⟩
    rintro a ha b hb rfl
    obtain ⟨e, he, rfl⟩ := List.mem_map.1 ha
    exact hnew e he (by simpa using hb)
  · rcases List.mem_append.1 he with he | he
    · obtain ⟨other, hother, hrest⟩ := h.verdict e he
      exact ⟨other, by rw [hadv.calls, if_neg (hnew e he), hother], hrest⟩
    · obtain rfl := List.mem_singleton.1 he
      exact ⟨{ call with stage }, by rw [hadv.calls, if_pos rfl], rfl, rfl, houtcome⟩
  · refine hadv.forall_calls (fun _ _ _ => ⟨_, List.mem_append_right _ List.mem_cons_self, rfl⟩)
      fun j other hne hother o ho hfailed => ?_
    obtain ⟨e, he, hid⟩ := h.complete j other hother o ho hfailed
    exact ⟨e, List.mem_append_left _ he, hid⟩

/-- What holds of an order of the calls of a run while the run goes on. -/
structure Tracks (opens : Ciphertext → Option Secret) (s : Store) (moves : List Move)
    (order : List Event) : Prop where
  memory : (s.run moves).settings.backend = .memory
  carrying : Carrying opens (s.run moves)
  simulates : (s.run moves).Simulates opens (SecretMap.replay (fun _ => none) order)
  accounts : (s.run moves).Accounts order
  explained : SecretMap.Explains (fun _ => none) order
  ordered : order.Pairwise fun a b => ¬Precedes s moves b.id a.id
  refused : ∀ id call, (s.run moves).calls.find? id = some call → ∀ outcome,
    call.stage.verdict? = some outcome → Failed outcome → Refused s moves id

theorem Refused.append (h : Refused s moves id) (move : Move) :
    Refused s (moves ++ [move]) id := by
  obtain ⟨before, reply, call, hprefix, hrest⟩ := h
  exact ⟨before, reply, call, hprefix.trans (List.prefix_append _ _), hrest⟩

/-- One more move puts no call of an order before one that comes after it there. -/
theorem Tracks.ordered_append (h : Tracks opens s moves order)
    (haccounts : (s.run (moves ++ [move])).Accounts order) :
    order.Pairwise fun a b => ¬Precedes s (moves ++ [move]) b.id a.id := by
  refine h.ordered.imp_of_mem fun {a b} ha _ hab hprecedes => ?_
  obtain ⟨call, hcall, -⟩ := haccounts.verdict a ha
  exact hab (hprecedes.of_append hcall)

/-- A step of a call extends the order by at most that call. -/
theorem Tracks.step (h : Tracks opens s moves order) (hsound : s.Sound)
    (hlegal : Legal (Honest opens) s moves) (hcall : (s.run moves).calls.find? id = some call)
    (hhonest : reply.Honest opens call.stage) :
    ∃ order', Tracks opens s (moves ++ [.step id reply]) order' := by
  have hsound' := hlegal.sound hsound
  obtain ⟨change, stage, hadv⟩ := exists_advances hcall (hsound'.fits id call hcall) reply
  obtain ⟨m', hsimulates, heffect⟩ :=
    h.simulates.advances h.memory hsound' h.carrying hcall hhonest hadv
  have hmemory := hadv.settings ▸ h.memory
  have hcarrying := h.carrying.advances hcall hhonest hadv
  rw [show (s.run moves).step id reply = s.run (moves ++ [.step id reply]) from
    (run_append s moves [.step id reply]).symm] at hadv hsimulates hmemory hcarrying
  have hrefused (hself : ∀ outcome, stage.verdict? = some outcome → Failed outcome →
      Refused s (moves ++ [.step id reply]) id) :=
    hadv.forall_calls (P := fun j c => ∀ outcome, c.stage.verdict? = some outcome →
      Failed outcome → Refused s (moves ++ [.step id reply]) j) hself
      fun j other _ hother o ho hfailed => (h.refused j other hother o ho hfailed).append _
  cases heffect with
  -- the order stays as it is, unless the step does the operation of its call
  | quiet hsame =>
    have haccounts := h.accounts.same hcall hadv (.inl hsame)
    exact ⟨order, hmemory, hcarrying, hsimulates, haccounts, h.explained,
      h.ordered_append haccounts, hrefused fun o ho hfailed =>
        (h.refused id call hcall o (hsame.symm.trans ho) hfailed).append _⟩
  | fails hnone houtcome hfailed hrefuses =>
    have haccounts := h.accounts.same hcall hadv (.inr ⟨hnone, _, houtcome, hfailed⟩)
    exact ⟨order, hmemory, hcarrying, hsimulates, haccounts, h.explained,
      h.ordered_append haccounts, hrefused fun _ _ _ =>
        ⟨moves, reply, call, List.prefix_rfl, hcall, hrefuses⟩⟩
  | @performs outcome _ hnone houtcome hperform =>
    -- the call comes after all that did theirs before
    have haccounts := h.accounts.append hcall hadv hnone houtcome
    refine ⟨_, hmemory, hcarrying, ?_, haccounts,
      SecretMap.explains_append.2 ⟨h.explained, by rw [hperform]⟩, ?_,
      hrefused fun o ho hfailed => ?_⟩
    · rw [SecretMap.replay_append, hperform]
      exact hsimulates
    · rw [List.pairwise_append]
      refine ⟨h.ordered.imp_of_mem fun {a b} ha _ hab hprecedes => ?_, List.pairwise_singleton _ _,
        fun a ha b hb hprecedes => ?_⟩
      · obtain ⟨other, hother, -⟩ := haccounts.verdict a (List.mem_append_left _ ha)
        exact hab (hprecedes.of_append hother)
      · -- the call at the end of the order was not over before this step
        obtain ⟨other, hother, -⟩ := haccounts.verdict a (List.mem_append_left _ ha)
        obtain rfl := List.mem_singleton.1 hb
        obtain ⟨o, hover⟩ := (hprecedes.of_append hother).over hsound hlegal
        obtain ⟨_, hcall', hstage⟩ := outcome?_eq_some_iff.1 hover
        obtain rfl := Option.some.inj (hcall.symm.trans hcall')
        rw [hstage] at hnone
        cases hnone
    · -- what the operation gives is no failure of the key management system
      obtain rfl := Option.some.inj (houtcome.symm.trans ho)
      have hperforms := SecretMap.not_failed_perform
        (SecretMap.replay (fun _ => none) order) call.name call.operation
      rw [hperform] at hperforms
      exact absurd hfailed hperforms

/-- One more move extends the order by at most one call. -/
theorem Tracks.append (h : Tracks opens s moves order) (hsound : s.Sound)
    (hlegal : Legal (Honest opens) s (moves ++ [move])) :
    ∃ order', Tracks opens s (moves ++ [move]) order' := by
  obtain ⟨hmoves, hfresh, hhonest, -⟩ := legal_append.1 hlegal
  have hrun : s.run (moves ++ [move]) = (s.run moves).move move := run_append s moves [move]
  -- the moves that are no step of a call leave the order as it is
  have hsame (hmemory : ((s.run moves).move move).settings.backend = .memory)
      (hcarrying : Carrying opens ((s.run moves).move move))
      (hsimulates : ((s.run moves).move move).Simulates opens
        (SecretMap.replay (fun _ => none) order))
      (haccounts : ((s.run moves).move move).Accounts order)
      (hrefused : ∀ j other, ((s.run moves).move move).calls.find? j = some other → ∀ outcome,
        other.stage.verdict? = some outcome → Failed outcome → Refused s moves j) :
      ∃ order', Tracks opens s (moves ++ [move]) order' := by
    rw [← hrun] at hmemory hcarrying hsimulates haccounts hrefused
    exact ⟨order, hmemory, hcarrying, hsimulates, haccounts, h.explained,
      h.ordered_append haccounts, fun j other hother o ho hfailed =>
        (hrefused j other hother o ho hfailed).append _⟩
  rcases move_cases (s.run moves) move with ⟨id, name, operation, rfl⟩ | ⟨id, reply, rfl⟩ | hfades
  · exact hsame h.memory h.carrying.newCall (h.simulates.newCall hfresh operation)
      (h.accounts.newCall hfresh name operation)
      (forall_calls_call (fun _ ho => by cases ho) h.refused)
  · cases hcall : (s.run moves).calls.find? id with
    | none =>
      -- a call that was not made makes no steps
      have hnothing : (s.run moves).move (.step id reply) = s.run moves := by
        rw [Store.move, Store.step, hcall]
      refine hsame ?_ ?_ ?_ ?_ ?_ <;> rw [hnothing]
      exacts [h.memory, h.carrying, h.simulates, h.accounts, h.refused]
    | some call => exact h.step hsound hmoves hcall (hhonest call hcall)
  · exact hsame (hfades.settings ▸ h.memory) (h.carrying.fades hfades) (h.simulates.fades hfades)
      (h.accounts.fades hfades) (by rw [hfades.calls]; exact h.refused)

/-- The calls of a run can be put into an order. -/
theorem exists_tracks {settings : Settings} (hmemory : settings.backend = .memory) (disk : Disk)
    (now : Nat) (hlegal : Legal (Honest opens) (new settings disk now) moves) :
    ∃ order, Tracks opens (new settings disk now) moves order := by
  have hsound := sound_new settings disk now
  -- from the first move on, each one extends the order of those before it
  induction moves using List.reverseRecOn with
  | nil =>
    exact ⟨[], hmemory, carrying_new settings disk now, simulates_new hmemory disk now,
      ⟨List.nodup_nil, by simp, fun id call h => by simp [new] at h⟩, trivial, .nil,
      fun id call h => by simp [new] at h⟩
  | append_singleton moves move ih =>
    obtain ⟨order, htracks⟩ := ih (legal_append.1 hlegal).1
    exact htracks.append hsound hlegal

/-- **Linearizability.** The calls of any run of a new key store in memory, with an honest key
management system that may fail, can be put into an order that explains what they gave. -/
theorem exists_linearizes {settings : Settings} (hmemory : settings.backend = .memory)
    (disk : Disk) (now : Nat) (hlegal : Legal (Honest opens) (new settings disk now) moves) :
    ∃ order, Linearizes (new settings disk now) moves order := by
  obtain ⟨order, h⟩ := exists_tracks hmemory disk now hlegal
  refine ⟨order, h.accounts.distinct, fun e he => ?_, fun e he outcome houtcome => ?_,
    fun id outcome houtcome hfailed => ?_, fun id outcome houtcome hfailed => ?_,
    h.explained.not_failed, h.explained, h.ordered⟩
  · obtain ⟨call, hcall, hname, hoperation, -⟩ := h.accounts.verdict e he
    exact ⟨call, hcall, hname, hoperation⟩
  · obtain ⟨call, hcall, -, -, hverdict⟩ := h.accounts.verdict e he
    obtain ⟨_, hcall', hstage⟩ := outcome?_eq_some_iff.1 houtcome
    obtain rfl := Option.some.inj (hcall.symm.trans hcall')
    rw [hstage] at hverdict
    exact Option.some.inj hverdict
  · obtain ⟨call, hcall, hstage⟩ := outcome?_eq_some_iff.1 houtcome
    exact h.accounts.complete id call hcall outcome (by rw [hstage]; rfl) hfailed
  · obtain ⟨call, hcall, hstage⟩ := outcome?_eq_some_iff.1 houtcome
    exact h.refused id call hcall outcome (by rw [hstage]; rfl) hfailed

namespace Sample

/-- A key is created and read while another call deletes it. The call that reads is made before the
one that deletes and waits for it; the one that creates is last to leave the lock to the others. -/
def race : List Move :=
  .call 0 "a" (.create secret) :: steps 0 8 ++ .call 1 "a" .get :: steps 1 2 ++
    .call 2 "a" .delete :: steps 2 3 ++ steps 1 2 ++ .evict "a" :: steps 0 2 ++ steps 2 4 ++
    steps 1 3

end Sample

/-- The key is created, deleted and not found, in this order. -/
theorem exists_linearizes_race :
    let s := new (Sample.settings .memory (some "k")) (Disk.empty [] 0) 0
    (s.run Sample.race).outcome? 1 = some (.error .keyNotFound) ∧
      ∃ order, Linearizes s Sample.race order := by
  intro s
  have hlegal : Legal (Honest Sample.opens) s Sample.race := by decide +kernel
  exact ⟨by decide +kernel, exists_linearizes rfl _ _ hlegal⟩

end Keyring.Store
