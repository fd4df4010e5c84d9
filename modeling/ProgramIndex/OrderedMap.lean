/- Finite maps that remember the order in which their keys were first added. Every writing
   operation is an `update`: a key that is present keeps its place and gets a new value, a new
   key goes to the end. `keys_update`, `get?_update_self` and `get?_update_ne` say what an update
   does to the two views of a map, its list of keys and its look-up function. -/
namespace ProgramIndex

/-- A map as its entries in order of first addition, with no key listed twice. -/
structure OrderedMap (κ ν : Type) where
  entries : List (κ × ν)
  distinct : (entries.map Prod.fst).Nodup

namespace OrderedMap
variable {κ ν μ : Type}

def empty : OrderedMap κ ν := ⟨[], List.nodup_nil⟩

def keys (m : OrderedMap κ ν) : List κ := m.entries.map Prod.fst

def values (m : OrderedMap κ ν) : List ν := m.entries.map Prod.snd

def size (m : OrderedMap κ ν) : Nat := m.entries.length

theorem nodup_keys (m : OrderedMap κ ν) : m.keys.Nodup := m.distinct

@[simp] theorem entries_empty : (empty : OrderedMap κ ν).entries = [] := rfl
@[simp] theorem keys_empty : (empty : OrderedMap κ ν).keys = [] := rfl

@[simp] theorem length_keys (m : OrderedMap κ ν) : m.keys.length = m.size := by simp [keys, size]

/-- The entries that `f` keeps, with the values it gives them. -/
def filterMap (f : κ → ν → Option μ) (m : OrderedMap κ ν) : OrderedMap κ μ where
  entries := m.entries.filterMap fun e => (f e.1 e.2).map fun w => (e.1, w)
  distinct := by
    refine List.Nodup.sublist ?_ m.distinct
    induction m.entries with
    | nil => exact List.Sublist.refl _
    | cons e rest ih =>
      cases h : f e.1 e.2 with
      | none => simpa [h] using ih.cons e.1
      | some w => simpa [h] using ih

variable [DecidableEq κ]

/-- The value under a key. -/
def get? (m : OrderedMap κ ν) (k : κ) : Option ν := m.entries.lookup k

@[simp] theorem get?_empty (k : κ) : (empty : OrderedMap κ ν).get? k = none := rfl

/-- A key has no value exactly if it is not listed. -/
theorem get?_eq_none_iff (m : OrderedMap κ ν) (k : κ) : m.get? k = none ↔ k ∉ m.keys := by
  rw [get?, List.lookup_eq_none_iff, keys, List.mem_map]
  constructor
  · rintro h ⟨e, he, rfl⟩
    simpa using h e he
  · intro h e he
    simpa using fun heq : k = e.1 => h ⟨e, he, heq.symm⟩

/-- Looking up finds the entries, and nothing else. -/
theorem get?_eq_some_iff (m : OrderedMap κ ν) (k : κ) (v : ν) :
    m.get? k = some v ↔ (k, v) ∈ m.entries := by
  rw [get?, List.lookup_eq_some_iff]
  constructor
  · rintro ⟨before, after, heq, _⟩
    simp [heq]
  · intro h
    obtain ⟨before, after, heq⟩ := List.append_of_mem h
    refine ⟨before, after, heq, fun e he => ?_⟩
    have hd := m.distinct
    rw [heq, List.map_append, List.nodup_append] at hd
    simpa using (hd.2.2 e.1 (List.mem_map_of_mem he) k (by simp)).symm

/-! Updating. -/

/-- The value under `k` becomes `f` of the old one, in place; a new key goes to the end. -/
def updateEntries (k : κ) (f : Option ν → ν) : List (κ × ν) → List (κ × ν)
  | [] => [(k, f none)]
  | e :: rest => if e.1 = k then (k, f (some e.2)) :: rest else e :: updateEntries k f rest

theorem fst_updateEntries (k : κ) (f : Option ν → ν) : ∀ entries : List (κ × ν),
    (updateEntries k f entries).map Prod.fst =
      if k ∈ entries.map Prod.fst then entries.map Prod.fst else entries.map Prod.fst ++ [k]
  | [] => by simp [updateEntries]
  | e :: rest => by
    by_cases h : e.1 = k
    · simp [updateEntries, h]
    · have h' : k ≠ e.1 := fun heq => h heq.symm
      simp only [updateEntries, if_neg h, List.map_cons, fst_updateEntries k f rest,
        List.mem_cons, h', false_or]
      split <;> simp

theorem lookup_updateEntries_self (k : κ) (f : Option ν → ν) : ∀ entries : List (κ × ν),
    (updateEntries k f entries).lookup k = some (f (entries.lookup k))
  | [] => by simp [updateEntries]
  | (k', v) :: rest => by
    by_cases h : k' = k
    · simp [updateEntries, h]
    · have h' : (k == k') = false := by simpa using fun heq => h heq.symm
      simp [updateEntries, h, List.lookup_cons, h', lookup_updateEntries_self k f rest]

theorem lookup_updateEntries_ne {k k' : κ} (hk : k' ≠ k) (f : Option ν → ν) :
    ∀ entries : List (κ × ν), (updateEntries k f entries).lookup k' = entries.lookup k'
  | [] => by simp [updateEntries, List.lookup_cons, beq_false_of_ne hk]
  | (k₀, v) :: rest => by
    by_cases h : k₀ = k
    · simp [updateEntries, h, List.lookup_cons, beq_false_of_ne hk]
    · simp [updateEntries, h, List.lookup_cons, lookup_updateEntries_ne hk f rest]

def update (k : κ) (f : Option ν → ν) (m : OrderedMap κ ν) : OrderedMap κ ν where
  entries := updateEntries k f m.entries
  distinct := by
    rw [fst_updateEntries]
    split
    · exact m.distinct
    · next h =>
      refine List.nodup_append.2 ⟨m.distinct, by simp, fun a ha b hb hab => h ?_⟩
      rw [← List.mem_singleton.1 hb, ← hab]
      exact ha

theorem keys_update (k : κ) (f : Option ν → ν) (m : OrderedMap κ ν) :
    (m.update k f).keys = if k ∈ m.keys then m.keys else m.keys ++ [k] :=
  fst_updateEntries k f m.entries

@[simp] theorem get?_update_self (k : κ) (f : Option ν → ν) (m : OrderedMap κ ν) :
    (m.update k f).get? k = some (f (m.get? k)) :=
  lookup_updateEntries_self k f m.entries

theorem get?_update_ne {k k' : κ} (h : k' ≠ k) (f : Option ν → ν) (m : OrderedMap κ ν) :
    (m.update k f).get? k' = m.get? k' :=
  lookup_updateEntries_ne h f m.entries

/-- Last write wins: a present key takes the new value. -/
def insert (k : κ) (v : ν) (m : OrderedMap κ ν) : OrderedMap κ ν := m.update k fun _ => v

/-- After an insertion a key has the new value, or the one it had. -/
theorem get?_insert (m : OrderedMap κ ν) (k k' : κ) (v : ν) :
    (m.insert k v).get? k' = if k' = k then some v else m.get? k' := by
  by_cases h : k' = k
  · subst h
    rw [if_pos rfl]
    exact get?_update_self k' _ m
  · rw [if_neg h]
    exact get?_update_ne h _ m

/-- First write wins: a present key keeps its value. -/
def insertIfNew (k : κ) (v : ν) (m : OrderedMap κ ν) : OrderedMap κ ν := m.update k fun old => old.getD v

/-- One more value at the end of the list under a key. -/
def push (k : κ) (v : ν) (m : OrderedMap κ (List ν)) : OrderedMap κ (List ν) :=
  m.update k fun old => old.getD [] ++ [v]

/-- The map that results from inserting entries in order. -/
def ofList (entries : List (κ × ν)) : OrderedMap κ ν :=
  entries.foldl (fun m e => m.insert e.1 e.2) empty

/-- The entries in the order of their keys. -/
def entriesByKey (m : OrderedMap String ν) : List (String × ν) :=
  m.entries.mergeSort fun a b => decide (a.1 ≤ b.1)

theorem perm_entriesByKey (m : OrderedMap String ν) : m.entriesByKey.Perm m.entries :=
  List.mergeSort_perm _ _

end OrderedMap

end ProgramIndex
