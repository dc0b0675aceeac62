/-!
# Finite maps

Finite maps from keys to values. A map holds each key at most once, so `size` counts keys and a
look-up has one answer. The view of a map is `find?`; the lemmas say what each operation does to
it. Maps from names are the most frequent ones and have a name of their own.
-/

namespace Keyring

/-- A finite map. -/
structure FiniteMap (κ α : Type) where
  /-- The entries, the most recently written first. -/
  entries : List (κ × α)
  /-- No key occurs twice. -/
  nodup : (entries.map Prod.fst).Nodup

/-- A finite map from names. -/
abbrev NameMap (α : Type) := FiniteMap String α

namespace FiniteMap

variable {κ α : Type}

/-- The map without entries. -/
def empty : FiniteMap κ α := ⟨[], List.nodup_nil⟩

instance : Inhabited (FiniteMap κ α) := ⟨empty⟩

/-- Keep the entries that pass a test. -/
def filter (m : FiniteMap κ α) (keep : κ → α → Bool) : FiniteMap κ α where
  entries := m.entries.filter fun e => keep e.1 e.2
  nodup := (List.filter_sublist.map Prod.fst).nodup m.nodup

/-- The number of keys. -/
def size (m : FiniteMap κ α) : Nat := m.entries.length

/-- Whether there is no key. -/
def isEmpty (m : FiniteMap κ α) : Bool := m.entries.isEmpty

/-- The keys, in no particular order. -/
def keys (m : FiniteMap κ α) : List κ := m.entries.map Prod.fst

variable [BEq κ] [LawfulBEq κ]

/-- The value held under a key. -/
def find? (m : FiniteMap κ α) (key : κ) : Option α := m.entries.lookup key

/-- Whether a value is held under a key. -/
def contains (m : FiniteMap κ α) (key : κ) : Bool := (m.find? key).isSome

/-- Remove a key. -/
def erase (m : FiniteMap κ α) (key : κ) : FiniteMap κ α := m.filter fun k _ => k != key

/-- Put a value under a key, in place of what was there. -/
def insert (m : FiniteMap κ α) (key : κ) (value : α) : FiniteMap κ α where
  entries := (key, value) :: (m.erase key).entries
  nodup := by
    rw [List.map_cons, List.nodup_cons]
    refine ⟨?_, (m.erase key).nodup⟩
    intro h
    obtain ⟨e, he, hk⟩ := List.mem_map.1 h
    have := (List.mem_filter.1 he).2
    simp [hk] at this

/-- The map of a list of entries; of two entries of one key the later counts. -/
def ofList (entries : List (κ × α)) : FiniteMap κ α :=
  entries.foldl (fun m e => m.insert e.1 e.2) empty

omit [LawfulBEq κ] in
@[simp] theorem find?_empty (key : κ) : (empty : FiniteMap κ α).find? key = none := rfl

/-- An entry is what is held under its key. -/
theorem mem_entries_iff {m : FiniteMap κ α} {key : κ} {value : α} :
    (key, value) ∈ m.entries ↔ m.find? key = some value := by
  unfold find?
  rw [List.lookup_eq_some_iff]
  constructor
  · intro h
    obtain ⟨before, after, heq⟩ := List.append_of_mem h
    refine ⟨before, after, heq, fun e he => ?_⟩
    have hnodup := m.nodup
    rw [heq, List.map_append, List.nodup_append] at hnodup
    have hne := hnodup.2.2 e.1 (List.mem_map_of_mem he) key (by simp)
    simpa using hne.symm
  · rintro ⟨before, after, heq, -⟩
    simp [heq]

@[simp] theorem find?_filter (m : FiniteMap κ α) (keep : κ → α → Bool) (key : κ) :
    (m.filter keep).find? key = (m.find? key).filter (keep key) := by
  apply Option.ext
  intro value
  rw [← mem_entries_iff, Option.filter_eq_some_iff, ← mem_entries_iff, filter, List.mem_filter]

@[simp] theorem find?_erase (m : FiniteMap κ α) (a b : κ) :
    (m.erase a).find? b = if b == a then none else m.find? b := by
  rw [erase, find?_filter]
  cases hb : b == a with
  | true => cases m.find? b <;> simp [bne, hb]
  | false => cases m.find? b <;> simp [bne, hb]

@[simp] theorem find?_insert (m : FiniteMap κ α) (a b : κ) (v : α) :
    (m.insert a v).find? b = if b == a then some v else m.find? b := by
  have h := find?_erase m a b
  simp only [find?] at h ⊢
  by_cases hb : b == a
  · simp [insert, List.lookup_cons, hb]
  · simp [insert, List.lookup_cons, hb, h]

theorem mem_keys_iff {m : FiniteMap κ α} {key : κ} :
    key ∈ m.keys ↔ (m.find? key).isSome = true := by
  rw [Option.isSome_iff_exists, keys, List.mem_map]
  constructor
  · rintro ⟨⟨_, value⟩, hmem, rfl⟩
    exact ⟨value, mem_entries_iff.1 hmem⟩
  · rintro ⟨value, hvalue⟩
    exact ⟨(key, value), mem_entries_iff.2 hvalue, rfl⟩

/-- Maps that hold the same keys are of one size. -/
theorem size_eq_of_isSome_eq {β : Type} {m : FiniteMap κ α} {n : FiniteMap κ β}
    (h : ∀ key, (m.find? key).isSome = (n.find? key).isSome) : m.size = n.size := by
  have hmem (key : κ) : key ∈ m.keys ↔ key ∈ n.keys := by rw [mem_keys_iff, mem_keys_iff, h key]
  have hlength := ((List.perm_ext_iff_of_nodup m.nodup n.nodup).2 hmem).length_eq
  simpa only [size, keys, List.length_map] using hlength

end FiniteMap

end Keyring
