import Mathlib.Data.List.Chain
import Mathlib.Data.List.Perm.Subperm
import Mathlib.Data.List.TakeWhile
import Mathlib.Logic.Relation
import ProgramIndex.SymbolTable.Member

/- How deep a member search can go. A candidate at some depth stands at the end of a trail: the types
   through which the search came to it, the last one first. The named types of a trail are distinct,
   because a named type is searched once, and between two of them the trail runs through unnamed
   structs, which are distinct if no cycle is made of unnamed structs alone. So a trail is shorter
   than `levelBound` (`Trail.length_lt`), and the search decides before its levels run out
   (`searchLevels?_isSome`). -/
namespace ProgramIndex.SymbolTable

variable {table : SymbolTable}

/-- One type embeds another, directly or behind a pointer. -/
def Embeds (table : SymbolTable) (outer inner : TypeId) : Prop :=
  ∃ e ∈ table.embeddings outer, e.type = inner

def isUnnamedStruct (table : SymbolTable) (type : TypeId) : Bool := (table.type? type).any TypeForm.isStruct

/-- One unnamed struct embeds another. -/
def EmbedsUnnamed (table : SymbolTable) (outer inner : TypeId) : Prop :=
  table.isUnnamedStruct outer ∧ table.isUnnamedStruct inner ∧ table.Embeds outer inner

/-- No cycle of embedded fields runs through unnamed structs only. -/
def UnnamedAcyclic (table : SymbolTable) : Prop := ∀ type, ¬ Relation.TransGen table.EmbedsUnnamed type type

/-- A table in which unnamed structs embed only unnamed structs that were added before. -/
def addedInOrder (table : SymbolTable) : Bool :=
  (List.range table.types.length).all fun i => (table.embeddings ⟨i⟩).all fun e =>
    !(table.isUnnamedStruct ⟨i⟩ && table.isUnnamedStruct e.type) || decide (e.type.index < i)

theorem unnamedAcyclic_of_addedInOrder {table : SymbolTable} (h : table.addedInOrder = true) :
    table.UnnamedAcyclic := by
  have hstep : ∀ outer inner, table.EmbedsUnnamed outer inner → inner.index < outer.index := by
    intro outer inner hembeds
    obtain ⟨houter, hinner, e, he, rfl⟩ := hembeds
    have hrange : outer.index < table.types.length := by
      obtain ⟨form, hform, _⟩ := (Option.any_eq_true _ _).mp houter
      exact (List.getElem?_eq_some_iff.mp hform).1
    have hall := List.all_eq_true.mp (List.all_eq_true.mp h outer.index (List.mem_range.mpr hrange)) e he
    simpa [houter, hinner] using hall
  have hpath : ∀ outer inner, Relation.TransGen table.EmbedsUnnamed outer inner →
      inner.index < outer.index := by
    intro outer inner h
    induction h with
    | single h => exact hstep _ _ h
    | tail _ h ih => exact Nat.lt_trans (hstep _ _ h) ih
  intro type hcycle
  exact Nat.lt_irrefl _ (hpath type type hcycle)

theorem Embeds.named_or_struct {outer inner : TypeId} (h : table.Embeds outer inner) :
    table.isNamed outer = true ∨ table.isUnnamedStruct outer = true := by
  obtain ⟨e, he, _⟩ := h
  unfold embeddings at he
  split at he
  · next fields hform =>
    cases htype : table.type? outer with
    | none => simp [underlyingForm?, underlying?, htype] at hform
    | some form =>
      cases form with
      | named symbol underlying methods => exact Or.inl (by simp [isNamed, htype, TypeForm.isNamed])
      | struct fields => exact Or.inr (by simp [isUnnamedStruct, htype, TypeForm.isStruct])
      | basic name => simp [underlyingForm?, underlying?, htype] at hform
      | pointer element => simp [underlyingForm?, underlying?, htype] at hform
      | interface methods => simp [underlyingForm?, underlying?, htype] at hform
  · simp at he

theorem outer_of_chain {type : TypeId} {outers : List TypeId}
    (h : (type :: outers).IsChain fun inner outer => table.Embeds outer inner) :
    ∀ t ∈ outers, table.isNamed t = true ∨ table.isUnnamedStruct t = true := by
  induction outers generalizing type with
  | nil => simp
  | cons outer rest ih =>
    intro t ht
    obtain ⟨hinner, hrest⟩ := List.isChain_cons_cons.mp h
    rcases List.mem_cons.mp ht with rfl | ht
    · exact hinner.named_or_struct
    · exact ih hrest t ht

/-! Counting types. -/

theorem length_le_countP (sort : TypeForm → Bool) {types : List TypeId} (hnodup : types.Nodup)
    (h : ∀ t ∈ types, (table.type? t).any sort = true) : types.length ≤ table.types.countP sort := by
  let places := (table.types.zipIdx.filter fun e => sort e.1).map Prod.snd
  have hcount : places.length = table.types.countP sort := by
    calc places.length = table.types.zipIdx.countP (sort ∘ Prod.fst) := by
          simp [places, List.countP_eq_length_filter, Function.comp_def]
      _ = (table.types.zipIdx.map Prod.fst).countP sort := List.countP_map.symm
      _ = table.types.countP sort := by rw [List.zipIdx_map_fst]
  have hindex : (types.map TypeId.index).Nodup := by
    apply hnodup.map
    intro a b hab
    cases a; cases b; simpa using hab
  have hsub : types.map TypeId.index ⊆ places := by
    intro i hi
    obtain ⟨t, ht, rfl⟩ := List.mem_map.mp hi
    obtain ⟨form, hform, hsort⟩ := (Option.any_eq_true _ _).mp (h t ht)
    apply List.mem_map.mpr
    refine ⟨(form, t.index), List.mem_filter.mpr ⟨?_, hsort⟩, rfl⟩
    exact List.mem_zipIdx_iff_getElem?.mpr hform
  have hle := (hindex.subperm hsub).length_le
  rw [List.length_map, hcount] at hle
  exact hle

/-! Trails. -/

/-- The types through which a search came to a type, the last one first. All of them were searched,
    the named ones once each. -/
structure Trail (table : SymbolTable) (seen : List TypeId) (type : TypeId) (trail : List TypeId) : Prop where
  chain : (type :: trail).IsChain fun inner outer => table.Embeds outer inner
  named_seen : ∀ t ∈ trail, table.isNamed t = true → t ∈ seen
  named_nodup : (trail.filter table.isNamed).Nodup

theorem run_length_le (hacyclic : table.UnnamedAcyclic) {types : List TypeId}
    (hchain : types.IsChain fun inner outer => table.Embeds outer inner)
    (hsort : ∀ t ∈ types, table.isNamed t = true ∨ table.isUnnamedStruct t = true) :
    (types.takeWhile fun t => !table.isNamed t).length ≤ table.types.countP TypeForm.isStruct := by
  have hunnamed : ∀ t ∈ types.takeWhile (fun t => !table.isNamed t), table.isUnnamedStruct t = true := by
    intro t ht
    have hnot : table.isNamed t = false := by simpa using List.mem_takeWhile_imp ht
    rcases hsort t (List.takeWhile_subset _ ht) with h | h
    · rw [hnot] at h; simp at h
    · exact h
  have hrun : (types.takeWhile fun t => !table.isNamed t).IsChain fun inner outer => table.Embeds outer inner :=
    hchain.prefix (List.takeWhile_prefix _)
  have hpath : (types.takeWhile fun t => !table.isNamed t).IsChain
      fun inner outer => Relation.TransGen table.EmbedsUnnamed outer inner := by
    apply hrun.imp_of_mem_imp
    intro inner outer hinner houter h
    exact Relation.TransGen.single ⟨hunnamed outer houter, hunnamed inner hinner, h⟩
  have hnodup : (types.takeWhile fun t => !table.isNamed t).Nodup := by
    have : IsTrans TypeId fun inner outer => Relation.TransGen table.EmbedsUnnamed outer inner :=
      ⟨fun a b c hab hbc => hbc.trans hab⟩
    apply (List.isChain_iff_pairwise.mp hpath).imp
    intro inner outer h heq
    exact hacyclic outer (heq ▸ h)
  exact length_le_countP TypeForm.isStruct hnodup hunnamed

/-- A chain of embedded types is bounded by its named types: the unnamed structs before the first one
    and after each of them are distinct. -/
theorem chain_length_le (hacyclic : table.UnnamedAcyclic) : ∀ types : List TypeId,
    (types.IsChain fun inner outer => table.Embeds outer inner) →
    (∀ t ∈ types, table.isNamed t = true ∨ table.isUnnamedStruct t = true) →
    types.length ≤ types.countP table.isNamed * (table.types.countP TypeForm.isStruct + 1) +
      (types.takeWhile fun t => !table.isNamed t).length
  | [], _, _ => by simp
  | t :: rest, hchain, hsort => by
    have hrest : ∀ s ∈ rest, table.isNamed s = true ∨ table.isUnnamedStruct s = true :=
      fun s hs => hsort s (List.mem_cons_of_mem t hs)
    have ih := chain_length_le hacyclic rest hchain.tail hrest
    have hrun : (rest.takeWhile fun s => !table.isNamed s).length ≤ table.types.countP TypeForm.isStruct :=
      run_length_le hacyclic hchain.tail hrest
    -- a named type ends the run behind it, of which there are few; an unnamed struct makes it longer
    cases hnamed : table.isNamed t with
    | true =>
      rw [List.length_cons, List.countP_cons_of_pos hnamed, Nat.succ_mul]
      omega
    | false =>
      rw [List.length_cons, List.countP_cons_of_neg (by simp [hnamed]),
        List.takeWhile_cons_of_pos (by simp [hnamed]), List.length_cons]
      omega

/-- A trail is shorter than the bound on the levels. -/
theorem Trail.length_lt (hacyclic : table.UnnamedAcyclic) {seen : List TypeId} {type : TypeId}
    {trail : List TypeId} (h : Trail table seen type trail) : trail.length < table.levelBound := by
  have hsort : ∀ t ∈ trail, table.isNamed t = true ∨ table.isUnnamedStruct t = true :=
    outer_of_chain h.chain
  have hlength := chain_length_le hacyclic trail h.chain.tail hsort
  have hrun : (trail.takeWhile fun t => !table.isNamed t).length ≤ table.types.countP TypeForm.isStruct :=
    run_length_le hacyclic h.chain.tail hsort
  have hnamed : trail.countP table.isNamed ≤ table.types.countP TypeForm.isNamed := by
    rw [List.countP_eq_length_filter]
    exact length_le_countP TypeForm.isNamed h.named_nodup fun t ht => (List.mem_filter.mp ht).2
  have hmul := Nat.mul_le_mul_right (table.types.countP TypeForm.isStruct + 1) hnamed
  rw [levelBound, Nat.succ_mul]
  omega

/-- A type that a trail leads to, and that was not seen before, is on the trail of what it embeds. -/
theorem Trail.extend {seen : List TypeId} {type inner : TypeId} {trail : List TypeId}
    (h : Trail table seen type trail) (hfresh : type ∉ seen) (hinner : table.Embeds type inner)
    {later : List TypeId} (hlater : ∀ t ∈ seen, t ∈ later) (htype : table.isNamed type = true → type ∈ later) :
    Trail table later inner (type :: trail) where
  chain := List.isChain_cons_cons.mpr ⟨hinner, h.chain⟩
  named_seen := by
    intro t ht hnamed
    rcases List.mem_cons.mp ht with rfl | ht
    · exact htype hnamed
    · exact hlater t (h.named_seen t ht hnamed)
  named_nodup := by
    cases hnamed : table.isNamed type with
    | false => simpa [hnamed] using h.named_nodup
    | true =>
      rw [List.filter_cons_of_pos hnamed]
      refine List.nodup_cons.mpr ⟨?_, h.named_nodup⟩
      intro hmem
      obtain ⟨hmem, _⟩ := List.mem_filter.mp hmem
      exact hfresh (h.named_seen type hmem hnamed)

/-! The search. -/

theorem exists_mem_of_mem_merge : ∀ {level : List Candidate} {c : Candidate}, c ∈ merge level →
    ∃ d ∈ level, d.type = c.type
  | [], c, h => by simp [merge] at h
  | d :: rest, c, h => by
    rw [merge] at h
    rcases List.mem_cons.mp h with rfl | h
    · exact ⟨d, List.mem_cons_self, rfl⟩
    · obtain ⟨b, hb, htype⟩ := exists_mem_of_mem_merge (List.mem_filter.mp h).1
      exact ⟨b, List.mem_cons_of_mem d hb, htype⟩

theorem searchLevels?_succ (selector : Selector) (addressable : Bool) (fuel : Nat) (seen : List TypeId)
    {level : List Candidate} (h : level ≠ []) :
    table.searchLevels? selector addressable (fuel + 1) seen level =
      let fresh := level.filter fun c => !seen.contains c.type
      match fresh.flatMap (table.hits selector) with
      | hit :: others => some (table.verdict addressable hit others)
      | [] => table.searchLevels? selector addressable fuel
          ((fresh.map (·.type)).filter table.isNamed ++ seen) (merge (fresh.flatMap table.deeper)) := by
  cases level with
  | nil => exact absurd rfl h
  | cons c rest => rfl

theorem searchLevels?_isSome_of_trails (hacyclic : table.UnnamedAcyclic) (selector : Selector)
    (addressable : Bool) : ∀ (fuel depth : Nat) (seen : List TypeId) (level : List Candidate),
    table.levelBound ≤ fuel + depth →
    (∀ c ∈ level, ∃ trail, Trail table seen c.type trail ∧ trail.length = depth) →
    (table.searchLevels? selector addressable fuel seen level).isSome = true
  | _, _, _, [], _, _ => by simp [searchLevels?]
  | 0, depth, seen, c :: rest, hfuel, htrail => by
    -- a candidate that is left would stand at the end of a trail that is too long
    obtain ⟨trail, h, hlength⟩ := htrail c List.mem_cons_self
    have := h.length_lt hacyclic
    omega
  | fuel + 1, depth, seen, c :: rest, hfuel, htrail => by
    rw [searchLevels?_succ _ _ _ _ (List.cons_ne_nil c rest)]
    dsimp only
    split
    · rfl
    · apply searchLevels?_isSome_of_trails hacyclic selector addressable fuel (depth + 1) _ _ (by omega)
      intro d hd
      obtain ⟨e, he, htype⟩ := exists_mem_of_mem_merge hd
      obtain ⟨b, hb, hdeeper⟩ := List.mem_flatMap.mp he
      -- `d` is embedded in the type of `b`, which is searched now and so goes on the trail
      obtain ⟨hlevel, hfresh⟩ := List.mem_filter.mp hb
      obtain ⟨trail, h, hlength⟩ := htrail b hlevel
      have hinner : table.Embeds b.type d.type := by
        obtain ⟨x, hx, rfl⟩ := List.mem_map.mp hdeeper
        exact ⟨x, hx, htype⟩
      refine ⟨b.type :: trail, h.extend (by simpa using hfresh) hinner ?_ ?_, by simp [hlength]⟩
      · exact fun t ht => List.mem_append_right _ ht
      · intro hnamed
        exact List.mem_append_left _ (List.mem_filter.mpr ⟨List.mem_map_of_mem hb, hnamed⟩)

/-- The levels of a table suffice for a search that starts with one type. -/
theorem searchLevels?_isSome (hacyclic : table.UnnamedAcyclic) (selector : Selector) (addressable : Bool)
    (c : Candidate) : (table.searchLevels? selector addressable table.levelBound [] [c]).isSome = true := by
  apply searchLevels?_isSome_of_trails hacyclic selector addressable table.levelBound 0 [] [c] (Nat.le_refl _)
  intro d hd
  exact ⟨[], ⟨List.isChain_singleton _, by simp, by simp⟩, rfl⟩

end ProgramIndex.SymbolTable
