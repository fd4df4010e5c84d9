import Mathlib.Data.Fintype.EquivFin
import ProgramIndex.Proofs.MemberPath

/- How many levels a member search takes. `SearchEnds` is the search with nothing to bound it: it goes from
   level to level until one has a member or none is left, and counts the levels. A search that is given a
   number of levels answers exactly if that search ends within it (`searchLevels?_eq_some_iff`), and two
   searches whose levels are related one by one take the same number of them (`Lockstep`). Where no
   cycle is made of unnamed structs alone, every search ends within the named types and one more times
   the unnamed structs and one more (`searchMember_ends_within`). The condition is the weakest one: from a
   struct on such a cycle a search for a name that nothing answers to never ends
   (`not_searchEnds_of_cycle`), so every search ends only without one (`unnamedAcyclic_iff_searches_end`). -/
namespace ProgramIndex.SymbolTable

/-- The candidates of a level whose types were not searched before. -/
def unsearched (seen : List TypeId) (level : List Candidate) : List Candidate :=
  level.filter fun c => !seen.contains c.type

/-- The named types that were searched once a level is done. -/
def seenAfter (table : SymbolTable) (seen : List TypeId) (level : List Candidate) : List TypeId :=
  ((unsearched seen level).map (·.type)).filter table.isNamed ++ seen

/-- The level below a level without a member. -/
def nextLevel (table : SymbolTable) (seen : List TypeId) (level : List Candidate) : List Candidate :=
  merge ((unsearched seen level).flatMap table.deeper)

/-- Where the search of a type starts: at the type, or at what a pointer points to. -/
def startCandidate (table : SymbolTable) (type : TypeId) : Candidate :=
  ⟨(table.deref type).1, [], (table.deref type).2, false⟩

/-- A search ends with an answer after a number of levels. -/
inductive SearchEnds (table : SymbolTable) (selector : Selector) (addressable : Bool) :
    List TypeId → List Candidate → Nat → Selection → Prop
  /-- Nothing is left to search. -/
  | exhausted (seen : List TypeId) : SearchEnds table selector addressable seen [] 0 .notFound
  /-- The level has a member. -/
  | decided {seen : List TypeId} {level : List Candidate} {hit : Hit} {others : List Hit}
      (hhits : (unsearched seen level).flatMap (table.hits selector) = hit :: others) :
      SearchEnds table selector addressable seen level 1 (table.verdict addressable hit others)
  /-- The level has no member, and the search goes on below it. -/
  | descends {seen : List TypeId} {level : List Candidate} {levels : Nat} {answer : Selection}
      (hlevel : level ≠ []) (hmiss : (unsearched seen level).flatMap (table.hits selector) = [])
      (hnext : SearchEnds table selector addressable (table.seenAfter seen level)
        (table.nextLevel seen level) levels answer) :
      SearchEnds table selector addressable seen level (levels + 1) answer

variable {table : SymbolTable} {selector : Selector} {addressable : Bool}

/-! A search within a bound. -/

theorem searchLevels?_of_hits {seen : List TypeId} {level : List Candidate} {hit : Hit} {others : List Hit}
    (h : (unsearched seen level).flatMap (table.hits selector) = hit :: others) (bound : Nat) :
    table.searchLevels? selector addressable (bound + 1) seen level =
      some (table.verdict addressable hit others) := by
  have hlevel : level ≠ [] := by
    rintro rfl
    simp [unsearched] at h
  rw [searchLevels?_succ _ _ _ _ hlevel]
  dsimp only
  rw [unsearched] at h
  rw [h]

theorem searchLevels?_of_miss {seen : List TypeId} {level : List Candidate} (hlevel : level ≠ [])
    (h : (unsearched seen level).flatMap (table.hits selector) = []) (bound : Nat) :
    table.searchLevels? selector addressable (bound + 1) seen level =
      table.searchLevels? selector addressable bound (table.seenAfter seen level)
        (table.nextLevel seen level) := by
  rw [searchLevels?_succ _ _ _ _ hlevel]
  dsimp only
  rw [unsearched] at h
  rw [h]
  rfl

/-- Two searches whose levels are related, one by one, and of which the second answers what `answers` makes
    of the answer of the first. -/
structure Lockstep (first second : SymbolTable) (selector other : Selector) (addressable granted : Bool)
    (Related : List Candidate → List Candidate → Prop) (answers : Selection → Selection) : Prop where
  notFound : answers .notFound = .notFound
  nil : ∀ {level beside}, Related level beside → (level = [] ↔ beside = [])
  decided : ∀ {seen level beside hit others}, Related level beside →
    (unsearched seen level).flatMap (first.hits selector) = hit :: others →
    ∃ hit' others', (unsearched seen beside).flatMap (second.hits other) = hit' :: others' ∧
      second.verdict granted hit' others' = answers (first.verdict addressable hit others)
  descends : ∀ {seen level beside}, Related level beside →
    (unsearched seen level).flatMap (first.hits selector) = [] →
    (unsearched seen beside).flatMap (second.hits other) = [] ∧
      second.seenAfter seen beside = first.seenAfter seen level ∧
      Related (first.nextLevel seen level) (second.nextLevel seen beside)

theorem Lockstep.searchLevels?_eq {first second : SymbolTable} {selector other : Selector}
    {addressable granted : Bool} {Related : List Candidate → List Candidate → Prop}
    {answers : Selection → Selection}
    (h : Lockstep first second selector other addressable granted Related answers) :
    ∀ (bound : Nat) (seen : List TypeId) {level beside : List Candidate}, Related level beside →
    second.searchLevels? other granted bound seen beside =
      (first.searchLevels? selector addressable bound seen level).map answers
  | bound, seen, [], beside, hrelated => by
    rw [(h.nil hrelated).mp rfl]
    cases bound <;> simp [searchLevels?, h.notFound]
  | 0, seen, c :: rest, beside, hrelated => by
    obtain ⟨d, more, rfl⟩ := List.exists_cons_of_ne_nil (mt (h.nil hrelated).mpr (List.cons_ne_nil c rest))
    rfl
  | bound + 1, seen, c :: rest, beside, hrelated => by
    cases hhits : (unsearched seen (c :: rest)).flatMap (first.hits selector) with
    | cons hit others =>
      obtain ⟨hit', others', hbeside, hverdict⟩ := h.decided hrelated hhits
      rw [searchLevels?_of_hits hhits, searchLevels?_of_hits hbeside, Option.map_some, hverdict]
    | nil =>
      obtain ⟨hbeside, hseen, hnext⟩ := h.descends hrelated hhits
      have hne : beside ≠ [] := mt (h.nil hrelated).mpr (List.cons_ne_nil c rest)
      rw [searchLevels?_of_miss (List.cons_ne_nil c rest) hhits, searchLevels?_of_miss hne hbeside, hseen]
      exact h.searchLevels?_eq bound _ hnext

theorem searchEnds_of_searchLevels? {answer : Selection} : ∀ {bound : Nat} {seen : List TypeId}
    {level : List Candidate}, table.searchLevels? selector addressable bound seen level = some answer →
    ∃ levels ≤ bound, table.SearchEnds selector addressable seen level levels answer
  | bound, seen, [], h => by
    obtain rfl : Selection.notFound = answer := by simpa [searchLevels?] using h
    exact ⟨0, Nat.zero_le bound, .exhausted seen⟩
  | 0, seen, c :: rest, h => by simp [searchLevels?] at h
  | bound + 1, seen, c :: rest, h => by
    cases hhits : (unsearched seen (c :: rest)).flatMap (table.hits selector) with
    | cons hit others =>
      rw [searchLevels?_of_hits hhits] at h
      obtain rfl := Option.some.inj h
      exact ⟨1, by omega, .decided hhits⟩
    | nil =>
      rw [searchLevels?_of_miss (List.cons_ne_nil c rest) hhits] at h
      obtain ⟨levels, hle, hends⟩ := searchEnds_of_searchLevels? h
      exact ⟨levels + 1, by omega, .descends (List.cons_ne_nil c rest) hhits hends⟩

theorem SearchEnds.searchLevels?_eq {seen : List TypeId} {level : List Candidate} {levels : Nat}
    {answer : Selection} (h : table.SearchEnds selector addressable seen level levels answer) {bound : Nat}
    (hle : levels ≤ bound) : table.searchLevels? selector addressable bound seen level = some answer := by
  induction h generalizing bound with
  | exhausted seen => cases bound <;> rfl
  | decided hhits =>
    obtain ⟨rest, rfl⟩ := Nat.exists_eq_add_of_le' hle
    exact searchLevels?_of_hits hhits rest
  | descends hlevel hmiss _ ih =>
    obtain ⟨rest, rfl⟩ := Nat.exists_eq_add_of_le' (Nat.le_trans (Nat.le_add_left 1 _) hle)
    rw [searchLevels?_of_miss hlevel hmiss]
    exact ih (by omega)

/-- A search within a bound has an answer exactly if the search ends with it within that bound. -/
theorem searchLevels?_eq_some_iff {bound : Nat} {seen : List TypeId} {level : List Candidate}
    {answer : Selection} : table.searchLevels? selector addressable bound seen level = some answer ↔
      ∃ levels ≤ bound, table.SearchEnds selector addressable seen level levels answer :=
  ⟨searchEnds_of_searchLevels?, fun ⟨_, hle, hends⟩ => hends.searchLevels?_eq hle⟩

theorem Lockstep.searchEnds {first second : SymbolTable} {selector other : Selector} {addressable granted : Bool}
    {Related : List Candidate → List Candidate → Prop} {answers : Selection → Selection}
    (h : Lockstep first second selector other addressable granted Related answers) {seen : List TypeId}
    {level : List Candidate} {levels : Nat} {answer : Selection}
    (hends : first.SearchEnds selector addressable seen level levels answer) {beside : List Candidate}
    (hrelated : Related level beside) : second.SearchEnds other granted seen beside levels (answers answer) := by
  induction hends generalizing beside with
  | exhausted seen =>
    rw [(h.nil hrelated).mp rfl, h.notFound]
    exact .exhausted seen
  | decided hhits =>
    obtain ⟨hit, others, hbeside, hverdict⟩ := h.decided hrelated hhits
    rw [← hverdict]
    exact .decided hbeside
  | descends hlevel hmiss _ ih =>
    obtain ⟨hbeside, hseen, hnext⟩ := h.descends hrelated hmiss
    refine .descends (mt (h.nil hrelated).mpr hlevel) hbeside ?_
    rw [hseen]
    exact ih hnext

theorem SearchEnds.unique {seen : List TypeId} {level : List Candidate} {levels levels' : Nat}
    {answer answer' : Selection} (h : table.SearchEnds selector addressable seen level levels answer)
    (h' : table.SearchEnds selector addressable seen level levels' answer') :
    levels = levels' ∧ answer = answer' := by
  induction h generalizing levels' answer' with
  | exhausted seen =>
    cases h' with
    | exhausted => exact ⟨rfl, rfl⟩
    | decided hhits => simp [unsearched] at hhits
    | descends hlevel => exact absurd rfl hlevel
  | decided hhits =>
    cases h' with
    | exhausted => simp [unsearched] at hhits
    | decided hhits' =>
      obtain ⟨rfl, rfl⟩ := List.cons.inj (hhits.symm.trans hhits')
      exact ⟨rfl, rfl⟩
    | descends _ hmiss => simp [hmiss] at hhits
  | descends hlevel hmiss _ ih =>
    cases h' with
    | exhausted => exact absurd rfl hlevel
    | decided hhits => simp [hmiss] at hhits
    | descends _ _ hnext =>
      obtain ⟨rfl, rfl⟩ := ih hnext
      exact ⟨rfl, rfl⟩

/-! What a search decides by. -/

theorem eq_of_verdict_found {hit : Hit} {others : List Hit} {symbol : SymbolId} {path : List Nat}
    {indirect : Bool} (h : table.verdict addressable hit others = .found symbol path indirect) :
    hit.symbol = symbol ∧ hit.indirect = indirect := by
  unfold verdict at h
  split at h
  · simp at h
  · split at h
    · simp at h
    · split at h
      · simp at h
      · obtain ⟨hsymbol, _, hindirect⟩ := Selection.found.inj h
        exact ⟨hsymbol, hindirect⟩

theorem exists_candidate_of_hits {level : List Candidate} {hit : Hit} {others : List Hit}
    (h : level.flatMap (table.hits selector) = hit :: others) :
    ∃ c ∈ level, hit.indirect = c.indirect ∧ table.answersTo selector hit.symbol = true := by
  have hmem : hit ∈ level.flatMap (table.hits selector) := h ▸ List.mem_cons_self
  obtain ⟨c, hc, hhit⟩ := List.mem_flatMap.mp hmem
  obtain ⟨m, hm, rfl⟩ := List.mem_map.mp hhit
  obtain ⟨_, _, hanswers, _⟩ := table.exists_list_of_mem_ownMembers selector hm
  exact ⟨c, hc, rfl, hanswers⟩

theorem exists_marked_of_mem_merge : ∀ {level : List Candidate} {c : Candidate}, c ∈ merge level →
    ∃ d ∈ level, ∃ again, c = d.marked again
  | [], c, h => by simp [merge] at h
  | d :: rest, c, h => by
    rw [merge_cons] at h
    rcases List.mem_cons.mp h with rfl | h
    · exact ⟨d, List.mem_cons_self, _, rfl⟩
    · obtain ⟨b, hb, again, heq⟩ := exists_marked_of_mem_merge (List.mem_filter.mp h).1
      exact ⟨b, List.mem_cons_of_mem d hb, again, heq⟩

theorem indirect_nextLevel {seen : List TypeId} {level : List Candidate} (h : ∀ c ∈ level, c.indirect = true) :
    ∀ c ∈ table.nextLevel seen level, c.indirect = true := by
  intro c hc
  obtain ⟨d, hd, again, rfl⟩ := exists_marked_of_mem_merge hc
  obtain ⟨b, hb, hdeeper⟩ := List.mem_flatMap.mp hd
  obtain ⟨e, _, rfl⟩ := List.mem_map.mp hdeeper
  simp [Candidate.marked, h b (List.mem_filter.mp hb).1]

/-- A search that ends finds nothing, or decides by hits. The first of these answers to the name, and is
    behind a pointer if the level is from which the search goes. -/
theorem SearchEnds.exists_verdict {seen : List TypeId} {level : List Candidate} {levels : Nat}
    {answer : Selection} (h : table.SearchEnds selector addressable seen level levels answer) :
    answer = .notFound ∨ ∃ hit others, answer = table.verdict addressable hit others ∧
      table.answersTo selector hit.symbol = true ∧
      ((∀ c ∈ level, c.indirect = true) → hit.indirect = true) := by
  induction h with
  | exhausted => exact Or.inl rfl
  | @decided seen level hit others hhits =>
    obtain ⟨c, hc, hindirect, hanswers⟩ := exists_candidate_of_hits hhits
    refine Or.inr ⟨hit, others, rfl, hanswers, fun hlevel => ?_⟩
    rw [hindirect]
    exact hlevel c (List.mem_filter.mp hc).1
  | descends _ _ _ ih =>
    rcases ih with hnone | ⟨hit, others, hverdict, hanswers, hindirect⟩
    · exact Or.inl hnone
    · exact Or.inr ⟨hit, others, hverdict, hanswers, fun hlevel => hindirect (indirect_nextLevel hlevel)⟩

theorem searchMember_cases (table : SymbolTable) (selector : Selector) (type : TypeId) (addressable : Bool) :
    table.searchMember type addressable selector = .notFound ∨
      ∃ hit others, table.searchMember type addressable selector = table.verdict addressable hit others ∧
        table.answersTo selector hit.symbol = true ∧
        ((table.deref type).2 = true → hit.indirect = true) := by
  unfold searchMember
  dsimp only
  split
  · exact Or.inl rfl
  · cases hsearch : table.searchLevels? selector addressable table.levelBound []
      [⟨(table.deref type).1, [], (table.deref type).2, false⟩] with
    | none => exact Or.inl rfl
    | some answer =>
      obtain ⟨levels, _, hends⟩ := searchLevels?_eq_some_iff.mp hsearch
      rcases hends.exists_verdict with hnone | ⟨hit, others, hverdict, hanswers, hindirect⟩
      · exact Or.inl hnone
      · exact Or.inr ⟨hit, others, hverdict, hanswers, fun hpointer => hindirect (by simpa using hpointer)⟩

/-! The bound. -/

theorem exists_searchEnds (hacyclic : table.UnnamedAcyclic) (selector : Selector) (addressable : Bool)
    (c : Candidate) :
    ∃ levels ≤ table.levelBound, ∃ answer, table.SearchEnds selector addressable [] [c] levels answer := by
  obtain ⟨answer, hanswer⟩ := Option.isSome_iff_exists.mp (searchLevels?_isSome hacyclic selector addressable c)
  obtain ⟨levels, hle, hends⟩ := searchLevels?_eq_some_iff.mp hanswer
  exact ⟨levels, hle, answer, hends⟩

/-- If no cycle of embedded fields runs through unnamed structs only, the search of a type ends with the
    answer that is given, unless a pointer to an interface was not searched. It goes through at most as many
    levels as the product of the named types and one more and the unnamed structs and one more. -/
theorem searchMember_ends_within (table : SymbolTable) (hacyclic : table.UnnamedAcyclic) (type : TypeId)
    (addressable : Bool) (selector : Selector) :
    (∃ levels answer, table.SearchEnds selector addressable [] [table.startCandidate type] levels answer ∧
      table.searchMember type addressable selector =
        if (table.deref type).2 && (table.underlyingForm? (table.deref type).1).any TypeForm.isInterface then
          .notFound
        else answer) ∧
    ∀ levels answer, table.SearchEnds selector addressable [] [table.startCandidate type] levels answer →
      levels ≤ (table.types.countP TypeForm.isNamed + 1) * (table.types.countP TypeForm.isStruct + 1) := by
  obtain ⟨levels, hle, answer, hends⟩ := exists_searchEnds hacyclic selector addressable (table.startCandidate type)
  refine ⟨⟨levels, answer, hends, ?_⟩, fun other otherAnswer hother => ?_⟩
  · have hanswer := hends.searchLevels?_eq hle
    rw [startCandidate] at hanswer
    simp only [searchMember, hanswer, Option.getD_some]
  · rw [(hother.unique hends).1]
    exact hle

/-- A type that embeds itself behind a pointer, twice over: directly, and through an unnamed struct. The
    struct behind its name has a field whose symbol is not there. -/
def selfEmbedding : SymbolTable where
  symbols := [⟨"Node", .field, some "p", some ⟨3⟩⟩, ⟨"U", .field, some "p", some ⟨1⟩⟩]
  types := [.named ⟨9⟩ (some ⟨2⟩) [], .struct [⟨⟨0⟩, true⟩],
    .struct [⟨⟨0⟩, true⟩, ⟨⟨1⟩, true⟩, ⟨⟨7⟩, true⟩], .pointer ⟨0⟩]

theorem searchMember_ends_within_selfEmbedding :
    selfEmbedding.UnnamedAcyclic ∧
    (∃ levels answer,
      selfEmbedding.SearchEnds ⟨"p", "X"⟩ false [] [selfEmbedding.startCandidate ⟨3⟩] levels answer ∧
      selfEmbedding.searchMember ⟨3⟩ false ⟨"p", "X"⟩ = answer) ∧
    ∀ levels answer,
      selfEmbedding.SearchEnds ⟨"p", "X"⟩ false [] [selfEmbedding.startCandidate ⟨3⟩] levels answer →
      levels ≤ 6 := by
  have hacyclic : selfEmbedding.UnnamedAcyclic := unnamedAcyclic_of_addedInOrder (by decide)
  exact ⟨hacyclic, searchMember_ends_within selfEmbedding hacyclic ⟨3⟩ false ⟨"p", "X"⟩⟩

/-! Without the condition. -/

theorem exists_struct_of_isUnnamedStruct {type : TypeId} (h : table.isUnnamedStruct type = true) :
    ∃ fields, table.type? type = some (.struct fields) := by
  obtain ⟨form, hform, hstruct⟩ := (Option.any_eq_true _ _).mp h
  cases form with
  | struct fields => exact ⟨fields, hform⟩
  | _ => simp [TypeForm.isStruct] at hstruct

theorem exists_mem_nextLevel {seen : List TypeId} (hseen : ∀ t ∈ seen, table.isNamed t = true)
    {level : List Candidate} {c : Candidate} (hc : c ∈ level) {inner : TypeId}
    (h : table.EmbedsUnnamed c.type inner) : ∃ d ∈ table.nextLevel seen level, d.type = inner := by
  obtain ⟨hstruct, _, e, he, rfl⟩ := h
  have hfresh : c ∈ unsearched seen level := by
    apply List.mem_filter.mpr ⟨hc, ?_⟩
    have hnot : c.type ∉ seen := by
      intro hmem
      obtain ⟨fields, hform⟩ := exists_struct_of_isUnnamedStruct hstruct
      have hnamed := hseen c.type hmem
      simp [isNamed, hform, TypeForm.isNamed] at hnamed
    simpa using hnot
  apply (hasType_eq_true_iff _ _).mp
  rw [nextLevel, hasType_merge, hasType_eq_true_iff]
  exact ⟨_, List.mem_flatMap.mpr ⟨c, hfresh, List.mem_map_of_mem he⟩, rfl⟩

theorem exists_embedsUnnamed_of_cycle {type : TypeId} (h : Relation.TransGen table.EmbedsUnnamed type type) :
    ∃ inner, table.EmbedsUnnamed type inner ∧ Relation.TransGen table.EmbedsUnnamed inner inner := by
  obtain ⟨inner, hfirst, hback⟩ := Relation.TransGen.head'_iff.mp h
  exact ⟨inner, hfirst, Relation.TransGen.tail' hback hfirst⟩

/-- A search that has come to a cycle of unnamed structs never ends, if no type has the member. -/
theorem not_searchEnds_of_cycle (hnone : ∀ t, table.hasMember selector t = false) {seen : List TypeId}
    (hseen : ∀ t ∈ seen, table.isNamed t = true) {level : List Candidate} {c : Candidate} (hc : c ∈ level)
    (hcycle : Relation.TransGen table.EmbedsUnnamed c.type c.type) (levels : Nat) (answer : Selection) :
    ¬ table.SearchEnds selector addressable seen level levels answer := by
  intro hends
  induction hends generalizing c with
  | exhausted => simp at hc
  | decided hhits =>
    -- a level has no hits at all
    rw [List.flatMap_eq_nil_iff.mpr fun d _ => (table.hits_eq_nil_iff selector d).mpr (hnone d.type)] at hhits
    simp at hhits
  | descends _ _ _ ih =>
    obtain ⟨inner, hembeds, hagain⟩ := exists_embedsUnnamed_of_cycle hcycle
    obtain ⟨d, hd, rfl⟩ := exists_mem_nextLevel hseen hc hembeds
    refine ih ?_ hd hagain
    intro t ht
    rcases List.mem_append.mp ht with ht | ht
    · exact (List.mem_filter.mp ht).2
    · exact hseen t ht

theorem exists_selector_without_member (table : SymbolTable) :
    ∃ selector, ∀ t, table.hasMember selector t = false := by
  obtain ⟨name, hname⟩ := Infinite.exists_notMem_finset (table.symbols.map Symbol.name).toFinset
  rw [List.mem_toFinset] at hname
  refine ⟨⟨"", name⟩, fun t => ?_⟩
  apply eq_false_of_ne_true
  intro hmember
  obtain ⟨m, ms, hown⟩ := table.exists_ownMembers ⟨"", name⟩ hmember
  obtain ⟨_, _, hanswers, _⟩ := table.exists_list_of_mem_ownMembers ⟨"", name⟩ (hown ▸ List.mem_cons_self)
  obtain ⟨symbol, hsymbol, hsame⟩ := (Option.any_eq_true _ _).mp hanswers
  simp only [Symbol.answersTo, Bool.and_eq_true, beq_iff_eq] at hsame
  exact hname (hsame.1 ▸ List.mem_map_of_mem (List.mem_of_getElem? hsymbol))

/-- Every search ends exactly if no cycle of embedded fields runs through unnamed structs only. -/
theorem unnamedAcyclic_iff_searches_end (table : SymbolTable) (addressable : Bool) :
    table.UnnamedAcyclic ↔ ∀ type selector, ∃ levels answer,
      table.SearchEnds selector addressable [] [table.startCandidate type] levels answer := by
  constructor
  · intro hacyclic type selector
    obtain ⟨levels, _, answer, hends⟩ :=
      exists_searchEnds hacyclic selector addressable (table.startCandidate type)
    exact ⟨levels, answer, hends⟩
  · intro hends type hcycle
    obtain ⟨selector, hnone⟩ := table.exists_selector_without_member
    obtain ⟨levels, answer, hends⟩ := hends type selector
    -- a struct on the cycle is no pointer, so the search starts on the cycle
    have hstart : (table.startCandidate type).type = type := by
      obtain ⟨_, ⟨hstruct, _⟩, _⟩ := exists_embedsUnnamed_of_cycle hcycle
      obtain ⟨fields, hform⟩ := exists_struct_of_isUnnamedStruct hstruct
      simp [startCandidate, deref, hform]
    refine not_searchEnds_of_cycle hnone (by simp) List.mem_cons_self ?_ levels answer hends
    rw [hstart]
    exact hcycle

end ProgramIndex.SymbolTable
