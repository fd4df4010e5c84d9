import Mathlib.Data.List.Nodup
import ProgramIndex.OrderedMap

/- What a map holds after many updates. Whatever the updates do to the values, the keys stand in the
   order in which they came first (`keys_foldl_update`). A map that was made by insertions has under each
   key the value that was inserted last (`get?_ofList`), or the first one if present keys keep their
   values (`get?_foldl_insertIfNew`), as then a present key changes nothing (`insertIfNew_of_get?`); if no key
   comes twice, every entry stays, in its place (`entries_ofList_of_nodup`), and for looking up their order does
   not matter (`get?_foldl_insertIfNew_iff`). A map that was made by pushing has under each key the values that
   were pushed there, in order (`getD_foldl_push`). The entries in the order of their keys do not tell in which
   order they were added (`entriesByKey_eq_of_perm`). -/
namespace ProgramIndex.OrderedMap

variable {α κ ν μ : Type} [DecidableEq κ]

/-! Keys. -/

theorem eraseDups_of_nodup : ∀ {keys : List κ}, keys.Nodup → keys.eraseDups = keys
  | [], _ => rfl
  | k :: rest, h => by
    obtain ⟨hk, hrest⟩ := List.nodup_cons.mp h
    have hall : rest.filter (fun b => !b == k) = rest := by
      apply List.filter_eq_self.mpr
      intro b hb
      have hne : b ≠ k := fun heq => hk (heq ▸ hb)
      simpa using hne
    rw [List.eraseDups_cons, hall, eraseDups_of_nodup hrest]

theorem eraseDups_append_cons {keys : List κ} {k : κ} (h : k ∈ keys) (rest : List κ) :
    (keys ++ k :: rest).eraseDups = (keys ++ rest).eraseDups := by
  rw [List.eraseDups_append, List.eraseDups_append]
  congr 2
  simp [List.removeAll, h]

/-- The keys are those that were there and those that were updated, in the order in which they came
    first. -/
theorem keys_foldl_update (key : α → κ) (value : α → Option ν → ν) (items : List α) (m : OrderedMap κ ν) :
    (items.foldl (fun m a => m.update (key a) (value a)) m).keys = (m.keys ++ items.map key).eraseDups := by
  induction items generalizing m with
  | nil => rw [List.map_nil, List.append_nil, eraseDups_of_nodup m.nodup_keys, List.foldl_nil]
  | cons a rest ih =>
    rw [List.foldl_cons, ih, keys_update, List.map_cons]
    split
    · next h => rw [eraseDups_append_cons h]
    · rw [List.append_assoc, List.singleton_append]

theorem keys_ofList (entries : List (κ × ν)) : (ofList entries).keys = (entries.map Prod.fst).eraseDups :=
  keys_foldl_update Prod.fst (fun e _ => e.2) entries empty

/-! Values. -/

theorem get?_ofList (entries : List (κ × ν)) (k : κ) : (ofList entries).get? k = entries.reverse.lookup k := by
  have hfold : ∀ (entries : List (κ × ν)) (m : OrderedMap κ ν),
      (entries.foldl (fun m e => m.insert e.1 e.2) m).get? k = (entries.reverse.lookup k).or (m.get? k) := by
    intro entries
    induction entries with
    | nil => exact fun m => rfl
    | cons e rest ih =>
      obtain ⟨k', v⟩ := e
      intro m
      rw [List.foldl_cons, ih, get?_insert, List.reverse_cons, List.lookup_append, Option.or_assoc]
      by_cases h : k = k'
      · simp [h]
      · simp [List.lookup_cons, h, beq_false_of_ne h]
  rw [ofList, hfold, get?_empty, Option.or_none]

theorem get?_ofList_eq_some_iff (entries : List (κ × ν)) (k : κ) (v : ν) :
    (ofList entries).get? k = some v ↔
      ∃ earlier later, entries = earlier ++ (k, v) :: later ∧ ∀ e ∈ later, e.1 ≠ k := by
  rw [get?_ofList, List.lookup_eq_some_iff]
  refine ⟨fun h => ?_, fun h => ?_⟩
  · obtain ⟨before, after, heq, hne⟩ := h
    refine ⟨after.reverse, before.reverse, ?_, fun e he => ?_⟩
    · rw [← List.reverse_reverse entries, heq]
      simp
    · exact fun heq => bne_iff_ne.mp (hne e (List.mem_reverse.mp he)) heq.symm
  · obtain ⟨earlier, later, rfl, hne⟩ := h
    refine ⟨later.reverse, earlier.reverse, by simp, fun e he => ?_⟩
    exact bne_iff_ne.mpr fun heq => hne e (List.mem_reverse.mp he) heq.symm

theorem mem_of_get?_ofList {entries : List (κ × ν)} {k : κ} {v : ν} (h : (ofList entries).get? k = some v) :
    (k, v) ∈ entries := by
  obtain ⟨earlier, later, rfl, _⟩ := (get?_ofList_eq_some_iff entries k v).mp h
  exact List.mem_append_right earlier List.mem_cons_self

theorem updateEntries_of_not_mem {k : κ} (f : Option ν → ν) :
    ∀ {entries : List (κ × ν)}, k ∉ entries.map Prod.fst → updateEntries k f entries = entries ++ [(k, f none)]
  | [], _ => rfl
  | e :: rest, h => by
    rw [List.map_cons, List.mem_cons, not_or] at h
    rw [updateEntries, if_neg (Ne.symm h.1), updateEntries_of_not_mem f h.2, List.cons_append]

theorem entries_ofList_of_nodup {entries : List (κ × ν)} (h : (entries.map Prod.fst).Nodup) :
    (ofList entries).entries = entries := by
  have hfold : ∀ (entries : List (κ × ν)) (m : OrderedMap κ ν), (m.keys ++ entries.map Prod.fst).Nodup →
      (entries.foldl (fun m e => m.insert e.1 e.2) m).entries = m.entries ++ entries := by
    intro entries
    induction entries with
    | nil => exact fun m _ => (List.append_nil _).symm
    | cons e rest ih =>
      intro m hnodup
      obtain ⟨_, _, hapart⟩ := List.nodup_append.mp hnodup
      have hnew : e.1 ∉ m.keys := fun hmem => hapart e.1 hmem e.1 List.mem_cons_self rfl
      have hkeys : (m.insert e.1 e.2).keys = m.keys ++ [e.1] := (keys_update _ _ _).trans (if_neg hnew)
      have hentries : (m.insert e.1 e.2).entries = m.entries ++ [e] := updateEntries_of_not_mem _ hnew
      rw [List.foldl_cons, ih, hentries, List.append_assoc, List.singleton_append]
      rwa [hkeys, List.append_assoc, List.singleton_append]
  exact hfold entries empty h

theorem get?_foldl_insertIfNew (key : α → κ) (value : α → ν) (k : κ) (items : List α) (m : OrderedMap κ ν) :
    (items.foldl (fun m a => m.insertIfNew (key a) (value a)) m).get? k =
      (m.get? k).or ((items.find? fun a => key a = k).map value) := by
  induction items generalizing m with
  | nil => simp
  | cons a rest ih =>
    rw [List.foldl_cons, ih]
    by_cases h : key a = k
    · subst h
      rw [insertIfNew, get?_update_self, List.find?_cons_of_pos (by simp)]
      cases m.get? (key a) <;> rfl
    · rw [insertIfNew, get?_update_ne (fun heq => h heq.symm), List.find?_cons_of_neg (by simpa using h)]

theorem get?_foldl_insertIfNew_iff (key : α → κ) (value : α → ν) {items : List α} (hkeys : (items.map key).Nodup)
    (k : κ) (v : ν) :
    (items.foldl (fun m a => m.insertIfNew (key a) (value a)) empty).get? k = some v ↔
      ∃ a ∈ items, key a = k ∧ value a = v := by
  rw [get?_foldl_insertIfNew, get?_empty, Option.none_or, Option.map_eq_some_iff]
  refine ⟨fun h => ?_, fun h => ?_⟩
  · obtain ⟨a, hfind, hvalue⟩ := h
    exact ⟨a, List.mem_of_find?_eq_some hfind, by simpa using List.find?_some hfind, hvalue⟩
  · obtain ⟨a, ha, hkey, hvalue⟩ := h
    cases hfind : items.find? fun a => key a = k with
    | none => exact absurd (decide_eq_true hkey) (List.find?_eq_none.mp hfind a ha)
    | some found =>
      have hfound : key found = k := by simpa using List.find?_some hfind
      have hsame := List.inj_on_of_nodup_map hkeys (List.mem_of_find?_eq_some hfind) ha (hfound.trans hkey.symm)
      exact ⟨found, rfl, hsame ▸ hvalue⟩

theorem get?_foldl_insertIfNew_eq_some_iff (key : α → κ) (value : α → ν) (items : List α) (k : κ) (v : ν) :
    (items.foldl (fun m a => m.insertIfNew (key a) (value a)) empty).get? k = some v ↔
      ∃ earlier a later, items = earlier ++ a :: later ∧ key a = k ∧ value a = v ∧ ∀ e ∈ earlier, key e ≠ k := by
  rw [get?_foldl_insertIfNew, get?_empty, Option.none_or, Option.map_eq_some_iff]
  simp only [List.find?_eq_some_iff_append, decide_eq_true_eq, Bool.not_eq_true', decide_eq_false_iff_not]
  refine ⟨fun h => ?_, fun h => ?_⟩
  · obtain ⟨a, ⟨hkey, earlier, later, hitems, hearlier⟩, hvalue⟩ := h
    exact ⟨earlier, a, later, hitems, hkey, hvalue, hearlier⟩
  · obtain ⟨earlier, a, later, hitems, hkey, hvalue, hearlier⟩ := h
    exact ⟨a, ⟨hkey, earlier, later, hitems, hearlier⟩, hvalue⟩

theorem updateEntries_of_lookup {k : κ} {v : ν} {f : Option ν → ν} (hf : f (some v) = v) :
    ∀ {entries : List (κ × ν)}, entries.lookup k = some v → updateEntries k f entries = entries
  | [], h => by simp at h
  | (k', w) :: rest, h => by
    by_cases hk : k' = k
    · subst hk
      obtain rfl : w = v := by simpa using h
      rw [updateEntries, if_pos rfl, hf]
    · have hrest : rest.lookup k = some v := by
        rwa [List.lookup_cons, beq_false_of_ne (Ne.symm hk)] at h
      rw [updateEntries, if_neg hk, updateEntries_of_lookup hf hrest]

/-- A map does not change if a key that is present keeps its value. -/
theorem insertIfNew_of_get? {m : OrderedMap κ ν} {k : κ} {v : ν} (h : m.get? k = some v) (w : ν) :
    m.insertIfNew k w = m := by
  obtain ⟨entries, distinct⟩ := m
  rw [insertIfNew, update, mk.injEq]
  exact updateEntries_of_lookup rfl h

/-- Pushing gathers the values of each key in order. -/
theorem getD_foldl_push (k : κ) (items : List (κ × ν)) (m : OrderedMap κ (List ν)) :
    ((items.foldl (fun m e => m.push e.1 e.2) m).get? k).getD [] =
      (m.get? k).getD [] ++ (items.filter (fun e => e.1 = k)).map Prod.snd := by
  induction items generalizing m with
  | nil => simp
  | cons e rest ih =>
    rw [List.foldl_cons, ih]
    by_cases h : e.1 = k
    · subst h
      rw [push, get?_update_self, List.filter_cons_of_pos (by simp)]
      simp
    · rw [push, get?_update_ne (fun heq => h heq.symm), List.filter_cons_of_neg (by simpa using h)]

theorem filter_entries_eq (m : OrderedMap κ ν) (k : κ) :
    m.entries.filter (fun e => e.1 = k) = ((m.get? k).map fun v => (k, v)).toList := by
  obtain ⟨entries, distinct⟩ := m
  simp only [get?]
  induction entries with
  | nil => rfl
  | cons e rest ih =>
    obtain ⟨k', v⟩ := e
    obtain ⟨hnew, hrest⟩ := List.nodup_cons.mp (by exact distinct : (k' :: rest.map Prod.fst).Nodup)
    by_cases h : k' = k
    · subst h
      have hnone : rest.filter (fun e => e.1 = k') = [] := by
        apply List.filter_eq_nil_iff.mpr
        intro e he heq
        exact hnew (of_decide_eq_true heq ▸ List.mem_map_of_mem he)
      simp [hnone]
    · have h' : (k == k') = false := by simpa using fun heq => h heq.symm
      simp [h, List.lookup_cons, h', ih hrest]

theorem mem_keys_iff (m : OrderedMap κ ν) (k : κ) : k ∈ m.keys ↔ ∃ v, m.get? k = some v := by
  rw [← Option.ne_none_iff_exists', Ne, get?_eq_none_iff, Decidable.not_not]

theorem mem_values_iff (m : OrderedMap κ ν) (v : ν) : v ∈ m.values ↔ ∃ k, m.get? k = some v := by
  rw [values, List.mem_map]
  refine ⟨fun h => ?_, fun h => ?_⟩
  · obtain ⟨⟨k, w⟩, hentry, rfl⟩ := h
    exact ⟨k, (m.get?_eq_some_iff k w).mpr hentry⟩
  · obtain ⟨k, hget⟩ := h
    exact ⟨(k, v), (m.get?_eq_some_iff k v).mp hget, rfl⟩

/-! Entries in the order of their keys. -/

theorem pairwise_entriesByKey (m : OrderedMap String ν) : m.entriesByKey.Pairwise fun a b => a.1 ≤ b.1 := by
  have hsorted : m.entriesByKey.Pairwise fun a b => decide (a.1 ≤ b.1) = true := by
    apply List.pairwise_mergeSort
    · intro a b c hab hbc
      exact decide_eq_true (String.le_trans (of_decide_eq_true hab) (of_decide_eq_true hbc))
    · intro a b
      simpa using String.le_total a.1 b.1
  exact hsorted.imp of_decide_eq_true

/-- In which order the entries were added does not show: no two of them have one key, so there is one way to sort
    them. -/
theorem entriesByKey_eq_of_perm {m n : OrderedMap String ν} (h : m.entries.Perm n.entries) :
    m.entriesByKey = n.entriesByKey := by
  have hperm : m.entriesByKey.Perm n.entriesByKey :=
    m.perm_entriesByKey.trans (h.trans n.perm_entriesByKey.symm)
  apply List.Perm.eq_of_pairwise _ m.pairwise_entriesByKey n.pairwise_entriesByKey hperm
  intro a b ha hb hab hba
  have hb' : b ∈ m.entriesByKey := hperm.mem_iff.mpr hb
  exact List.inj_on_of_nodup_map m.distinct (m.perm_entriesByKey.mem_iff.mp ha) (m.perm_entriesByKey.mem_iff.mp hb')
    (String.le_antisymm hab hba)

/-! Keeping some entries. -/

theorem get?_filterMap (f : κ → ν → Option μ) (m : OrderedMap κ ν) (k : κ) :
    (m.filterMap f).get? k = (m.get? k).bind (f k) := by
  apply Option.ext
  intro w
  rw [get?_eq_some_iff, Option.bind_eq_some_iff]
  simp only [filterMap, List.mem_filterMap, Option.map_eq_some_iff, Prod.mk.injEq, get?_eq_some_iff]
  refine ⟨fun h => ?_, fun h => ?_⟩
  · obtain ⟨⟨k', v⟩, hmem, w', hw, rfl, rfl⟩ := h
    exact ⟨v, hmem, hw⟩
  · obtain ⟨v, hmem, hw⟩ := h
    exact ⟨(k, v), hmem, w, hw, rfl, rfl⟩

theorem keys_filterMap (f : κ → ν → Option μ) (m : OrderedMap κ ν) :
    (m.filterMap f).keys = m.keys.filter fun k => ((m.get? k).bind (f k)).isSome := by
  have hkept : ∀ entries : List (κ × ν), (∀ e ∈ entries, m.get? e.1 = some e.2) →
      (entries.filterMap fun e => (f e.1 e.2).map fun w => (e.1, w)).map Prod.fst =
        (entries.map Prod.fst).filter fun k => ((m.get? k).bind (f k)).isSome := by
    intro entries
    induction entries with
    | nil => exact fun _ => rfl
    | cons e rest ih =>
      intro hget
      have hrest := ih fun x hx => hget x (List.mem_cons_of_mem e hx)
      cases hf : f e.1 e.2 with
      | none => simpa [hf, hget e List.mem_cons_self] using hrest
      | some w => simpa [hf, hget e List.mem_cons_self] using hrest
  exact hkept m.entries fun e he => (get?_eq_some_iff m e.1 e.2).mpr he

end ProgramIndex.OrderedMap
