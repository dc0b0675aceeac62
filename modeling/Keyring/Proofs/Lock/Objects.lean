import Keyring.Proofs.Lock.Served

/-!
# Lock objects come and go

A lock object is made for a name that has none, and it is dropped when a reference is handed out
while nobody refers to it. Numbers of objects are not used again, so an object that has served one
name never serves another.

* `Renews` — the objects of later are old ones under their old names, and new ones;
* `renews_obtain`, `renews_request`, `renews_giveBack`, `renews_letGo` — each operation renews;
* `Agrees.eq_of_renews` — one object serves one name;
* `Agrees.isSome_obtain_iff` — the names that have an object when a reference has been handed out.
-/

namespace Keyring.NameLocks

/-- The objects of later are those of before under the same names, and new ones. -/
structure Renews (l l' : NameLocks) : Prop where
  /-- Numbers of objects are not used again. -/
  fresh : l.fresh ≤ l'.fresh
  /-- An object was there under the same name, or it is new. -/
  table : ∀ name object, l'.table.find? name = some object →
    l.table.find? name = some object ∨ l.fresh ≤ object

variable {l l' l'' : NameLocks} {user? user'? : Nat → Option String} {id j object : Nat}
  {name a b : String}

theorem Renews.of_eq (hfresh : l'.fresh = l.fresh) (htable : l'.table = l.table) : l.Renews l' where
  fresh := Nat.le_of_eq hfresh.symm
  table name object h := .inl (by rwa [← htable])

theorem Renews.refl (l : NameLocks) : l.Renews l := .of_eq rfl rfl

theorem Renews.trans (h : l.Renews l') (h' : l'.Renews l'') : l.Renews l'' where
  fresh := Nat.le_trans h.fresh h'.fresh
  table name object hobject := by
    rcases h'.table name object hobject with hold | hnew
    · exact h.table name object hold
    · exact .inr (Nat.le_trans h.fresh hnew)

/-- What pruning leaves was there before, and somebody refers to it. -/
theorem find?_table_of_prune (h : l.prune.table.find? name = some object) :
    l.table.find? name = some object ∧ l.isUsed object = true := by
  simpa [prune, Option.filter_eq_some_iff] using h

theorem renews_prune (l : NameLocks) : l.Renews l.prune where
  fresh := Nat.le_refl _
  table _ _ h := .inl (find?_table_of_prune h).1

theorem renews_obtain (l : NameLocks) (id : Nat) (name : String) : l.Renews (l.obtain id name) := by
  refine (renews_prune l).trans ?_
  cases htable : l.prune.table.find? name with
  | some object =>
    rw [obtain_of_some htable]
    exact .of_eq rfl rfl
  | none =>
    -- the object that is made has the next number
    rw [obtain_of_none htable]
    refine ⟨Nat.le_succ _, fun n o ho => ?_⟩
    by_cases hn : n = name
    · have hnew : l.prune.fresh = o := by simpa [hn] using ho
      exact .inr (Nat.le_of_eq hnew)
    · exact .inl (by simpa [hn] using ho)

theorem renews_request (l : NameLocks) (id : Nat) (mode : LockMode) :
    l.Renews (l.request id mode) := by
  unfold request
  split <;> exact .of_eq rfl rfl

theorem renews_giveBack (l : NameLocks) (id : Nat) : l.Renews (l.giveBack id) := by
  unfold giveBack
  split <;> exact .of_eq rfl rfl

theorem renews_letGo (l : NameLocks) (id : Nat) : l.Renews (l.letGo id) := .of_eq rfl rfl

/-- An object that serves one name never serves another. -/
theorem Agrees.eq_of_renews (h : l.Agrees user?) (h' : l'.Agrees user'?) (hrenews : l.Renews l')
    (ha : user? id = some a) (href : l.references.find? id = some object)
    (hb : user'? j = some b) (href' : l'.references.find? j = some object) : a = b := by
  have htable := h.table_of_reference ha href
  rcases hrenews.table b object (h'.table_of_reference hb href') with hold | hnew
  · exact h.injective a b object htable hold
  · exact absurd (h.fresh a object htable) (Nat.not_lt_of_le hnew)

/-- An object that somebody refers to is the one of a name that somebody uses. -/
theorem Agrees.exists_user (h : l.Agrees user?) (htable : l.table.find? name = some object)
    (hused : l.isUsed object = true) : ∃ j, user? j = some name := by
  rw [isUsed, List.any_eq_true] at hused
  obtain ⟨⟨j, o⟩, hmem, ho⟩ := hused
  obtain rfl : o = object := by simpa using ho
  exact ⟨j, h.user?_of_reference htable (FiniteMap.mem_entries_iff.1 hmem)⟩

/-- When a reference has been handed out, the names that have an object are the name that was asked
for and those that somebody uses. -/
theorem Agrees.isSome_obtain_iff (h : l.Agrees user?) (hfree : user? id = none) (n : String) :
    ((l.obtain id name).table.find? n).isSome = true ↔ n = name ∨ ∃ j, user? j = some n := by
  constructor
  · intro hsome
    by_cases hn : n = name
    · exact .inl hn
    · -- what there is under another name has survived the pruning
      obtain ⟨object, hobject⟩ := Option.isSome_iff_exists.1 hsome
      have hprune : l.prune.table.find? n = some object := by
        cases htable : l.prune.table.find? name with
        | some o => rwa [obtain_of_some htable] at hobject
        | none =>
          rw [obtain_of_none htable] at hobject
          simpa [hn] using hobject
      obtain ⟨htable, hused⟩ := find?_table_of_prune hprune
      exact .inr (h.exists_user htable hused)
  · intro hn
    -- whoever uses a name afterwards refers to the object of that name
    have huser : ∃ j, Function.update user? id (some name) j = some n := by
      rcases hn with rfl | ⟨j, hj⟩
      · exact ⟨id, Function.update_self ..⟩
      · have hne : j ≠ id := by
          rintro rfl
          rw [hfree] at hj
          cases hj
        exact ⟨j, by rwa [Function.update_of_ne hne]⟩
    obtain ⟨j, hj⟩ := huser
    obtain ⟨object, hobject, -⟩ := (agrees_obtain h hfree name).current j n hj
    rw [hobject, Option.isSome_some]

end Keyring.NameLocks
