import ProgramIndex.Proofs.EmbeddingDepth
import ProgramIndex.Proofs.EmbeddingRoute

/- The member search finds what the rule of the least depth says. The search keeps one candidate for
   each type of a level and marks those that came more than once; the rule speaks of all routes. The
   two agree because merging may be put off: a level decides as its routes do whether or not it is
   merged (`verdict_merge`), and so does the next one (`merge_flatMap_deeper`). Types that were seen
   at a lesser depth are left out by the search; they lead to no member before the depth that decides
   (`Remaining.carriers_unseen`). `Remaining` says what one level leaves of all routes and is kept
   from level to level, up to `lookupMember_eq_shallowestMember`. -/
namespace ProgramIndex.SymbolTable

/-! Merging the candidates of a level. -/

/-- A candidate that is repeated if it was, or if `again` says so. -/
def Candidate.marked (again : Bool) (c : Candidate) : Candidate := { c with repeated := c.repeated || again }

@[simp] theorem Candidate.marked_type (again : Bool) (c : Candidate) : (c.marked again).type = c.type := rfl

theorem Candidate.marked_marked (first second : Bool) (c : Candidate) :
    (c.marked first).marked second = c.marked (first || second) := by
  simp [marked, Bool.or_assoc]

theorem Candidate.marked_false (c : Candidate) : c.marked false = c := by
  simp [marked]

/-- Whether a candidate of a list has a given type. -/
def hasType (level : List Candidate) (type : TypeId) : Bool := level.any (·.type == type)

theorem hasType_eq_true_iff (level : List Candidate) (type : TypeId) :
    hasType level type = true ↔ ∃ c ∈ level, c.type = type := by
  simp [hasType]

theorem filter_of_hasType_eq_false {level : List Candidate} {type : TypeId} (h : hasType level type = false) :
    level.filter (·.type != type) = level := by
  apply List.filter_eq_self.mpr
  intro c hc
  simp only [hasType, List.any_eq_false, beq_iff_eq] at h
  simpa using h c hc

theorem merge_cons (c : Candidate) (rest : List Candidate) :
    merge (c :: rest) = c.marked (hasType rest c.type) :: (merge rest).filter (·.type != c.type) := rfl

theorem hasType_merge (type : TypeId) : ∀ level, hasType (merge level) type = hasType level type
  | [] => rfl
  | c :: rest => by
    have ih := hasType_merge type rest
    by_cases h : c.type = type
    · simp [merge_cons, hasType, h]
    · simp only [hasType] at ih
      simp only [merge_cons, hasType, List.any_cons, Candidate.marked_type, List.any_filter, ← ih]
      congr 2
      funext d
      by_cases hd : d.type = type
      · simp [hd, Ne.symm h]
      · simp [hd]

theorem merge_filter (keep : TypeId → Bool) : ∀ level : List Candidate,
    merge (level.filter (keep ·.type)) = (merge level).filter (keep ·.type)
  | [] => rfl
  | c :: rest => by
    have ih := merge_filter keep rest
    cases h : keep c.type with
    | true =>
      have hany : hasType (rest.filter (keep ·.type)) c.type = hasType rest c.type := by
        simp only [hasType, List.any_filter]
        congr 1
        funext d
        by_cases hd : d.type = c.type
        · simp [hd, h]
        · simp [hd]
      rw [List.filter_cons_of_pos (by exact h), merge_cons, merge_cons, hany, ih,
        List.filter_cons_of_pos (by exact h), List.filter_filter, List.filter_filter]
      simp only [Bool.and_comm]
    | false =>
      rw [List.filter_cons_of_neg (by simp [h]), ih, merge_cons, List.filter_cons_of_neg (by simp [h]),
        List.filter_filter]
      apply List.filter_congr
      intro d _
      by_cases hd : d.type = c.type
      · simp [hd, h]
      · simp [hd]

/-- Of two lists of candidates the first is marked by what the second repeats, and of the second
    only the new types stay. -/
theorem merge_append (second : List Candidate) : ∀ first : List Candidate,
    merge (first ++ second) = (merge first).map (fun c => c.marked (hasType second c.type)) ++
      (merge second).filter (fun c => !hasType first c.type)
  | [] => by simp [merge, hasType]
  | c :: rest => by
    have ih := merge_append second rest
    rw [List.cons_append, merge_cons, ih, merge_cons, List.filter_append, List.filter_filter, List.map_cons,
      List.cons_append, Candidate.marked_marked, Candidate.marked_type]
    congr 1
    · simp [hasType]
    · congr 1
      · rw [List.filter_map]; rfl
      · apply List.filter_congr
        intro d _
        simp [hasType, bne, Bool.beq_comm]

theorem merge_append_congr (first : List Candidate) {second third : List Candidate}
    (h : merge second = merge third) : merge (first ++ second) = merge (first ++ third) := by
  have htype : ∀ type, hasType second type = hasType third type := by
    intro type
    rw [← hasType_merge, h, hasType_merge]
  simp only [merge_append, h, htype]

theorem merge_map_marked : ∀ level : List Candidate,
    merge (level.map (Candidate.marked true)) = (merge level).map (Candidate.marked true)
  | [] => rfl
  | c :: rest => by
    rw [List.map_cons, merge_cons, merge_map_marked rest, merge_cons, List.map_cons]
    simp only [Candidate.marked_marked, Candidate.marked_type, Bool.true_or, Bool.or_true, List.filter_map]
    rfl

/-! Merging before the next level is formed. -/

variable (table : SymbolTable)

theorem hasType_deeper {c d : Candidate} (h : c.type = d.type) (type : TypeId) :
    hasType (table.deeper c) type = hasType (table.deeper d) type := by
  simp [hasType, deeper, h, List.any_map, Function.comp_def]

theorem deeper_marked (c : Candidate) :
    table.deeper (c.marked true) = (table.deeper c).map (Candidate.marked true) := by
  simp [deeper, Candidate.marked]

theorem filter_flatMap_deeper (c : Candidate) : ∀ rest : List Candidate,
    (rest.flatMap table.deeper).filter (fun d => !hasType (table.deeper c) d.type) =
      ((rest.filter (·.type != c.type)).flatMap table.deeper).filter fun d => !hasType (table.deeper c) d.type
  | [] => rfl
  | d :: rest => by
    have ih := filter_flatMap_deeper c rest
    by_cases h : d.type = c.type
    · have hnone : (table.deeper d).filter (fun x => !hasType (table.deeper c) x.type) = [] := by
        apply List.filter_eq_nil_iff.mpr
        intro x hx
        have : hasType (table.deeper d) x.type = true := (hasType_eq_true_iff _ _).mpr ⟨x, hx, rfl⟩
        simp [← table.hasType_deeper h x.type, this]
      rw [List.flatMap_cons, List.filter_append, hnone, ih, List.filter_cons_of_neg (by simp [h])]
      rfl
    · rw [List.flatMap_cons, List.filter_append, ih, List.filter_cons_of_pos (by simp [h]), List.flatMap_cons,
        List.filter_append]

/-- A candidate of a type that comes again leads to repeated candidates, and those that come again
    lead to nothing else. -/
theorem merge_deeper_repeated {c : Candidate} {rest : List Candidate} (h : hasType rest c.type = true) :
    merge (table.deeper (c.marked true) ++ (rest.filter (·.type != c.type)).flatMap table.deeper) =
      merge (table.deeper c ++ rest.flatMap table.deeper) := by
  have htype : ∀ type, hasType (table.deeper (c.marked true)) type = hasType (table.deeper c) type :=
    fun type => table.hasType_deeper (Candidate.marked_type true c) type
  rw [merge_append, merge_append]
  congr 1
  · -- every type that `c` embeds is embedded by the candidate that comes again
    rw [deeper_marked, merge_map_marked, List.map_map]
    apply List.map_congr_left
    intro d hd
    have hmem : hasType (table.deeper c) d.type = true := by
      rw [← hasType_merge]
      exact (hasType_eq_true_iff _ _).mpr ⟨d, hd, rfl⟩
    obtain ⟨again, hagain, heq⟩ := (hasType_eq_true_iff _ _).mp h
    rw [← table.hasType_deeper heq] at hmem
    obtain ⟨e, he, hetype⟩ := (hasType_eq_true_iff _ _).mp hmem
    have hlater : hasType (rest.flatMap table.deeper) d.type = true :=
      (hasType_eq_true_iff _ _).mpr ⟨e, List.mem_flatMap.mpr ⟨again, hagain, he⟩, hetype⟩
    simp [Candidate.marked, hlater]
  · simp only [htype]
    rw [← merge_filter (fun t => !hasType (table.deeper c) t),
      ← merge_filter (fun t => !hasType (table.deeper c) t), table.filter_flatMap_deeper c rest]

/-- The next level is the same whether or not a level is merged before. -/
theorem merge_flatMap_deeper (level : List Candidate) :
    merge ((merge level).flatMap table.deeper) = merge (level.flatMap table.deeper) := by
  match level with
  | [] => rfl
  | c :: rest =>
    -- the induction is on the length: merging leaves out of the rest what has the type of `c`
    have ih := merge_flatMap_deeper (rest.filter (·.type != c.type))
    rw [merge_cons, ← merge_filter (· != c.type), List.flatMap_cons, merge_append_congr _ ih, List.flatMap_cons]
    cases h : hasType rest c.type with
    | true => exact table.merge_deeper_repeated h
    | false => rw [filter_of_hasType_eq_false h, Candidate.marked_false]
termination_by level.length
decreasing_by exact Nat.lt_succ_of_le (List.length_filter_le _ _)

/-! The hits of a merged level. -/

variable (selector : Selector)

/-- The candidate at the end of a route. -/
def Candidate.ofRoute (r : Route) : Candidate := ⟨r.type, r.path, r.indirect, false⟩

theorem deeper_ofRoute (r : Route) :
    table.deeper (Candidate.ofRoute r) = (table.extend r).map Candidate.ofRoute := by
  simp [deeper, extend, Candidate.ofRoute]

theorem hits_eq_nil_iff (c : Candidate) :
    table.hits selector c = [] ↔ table.hasMember selector c.type = false := by
  rw [hits, List.map_eq_nil_iff, hasMember_eq_false_iff]

theorem flatMap_hits_filter : ∀ level : List Candidate,
    (level.filter fun c => table.hasMember selector c.type).flatMap (table.hits selector) =
      level.flatMap (table.hits selector)
  | [] => rfl
  | c :: rest => by
    have ih := flatMap_hits_filter rest
    cases h : table.hasMember selector c.type with
    | true => rw [List.filter_cons_of_pos (by exact h), List.flatMap_cons, List.flatMap_cons, ih]
    | false =>
      rw [List.filter_cons_of_neg (by simp [h]), List.flatMap_cons, ih,
        (table.hits_eq_nil_iff selector c).mpr h, List.nil_append]

theorem flatMap_hits_merge (routes : List Route) :
    (merge (routes.map Candidate.ofRoute)).flatMap (table.hits selector) =
      (merge ((table.carriers selector routes).map Candidate.ofRoute)).flatMap (table.hits selector) := by
  rw [← flatMap_hits_filter, ← merge_filter (table.hasMember selector), List.filter_map]
  rfl

theorem flatMap_hits_merge_eq_nil_iff (routes : List Route) :
    (merge (routes.map Candidate.ofRoute)).flatMap (table.hits selector) = [] ↔
      table.carriers selector routes = [] := by
  rw [flatMap_hits_merge]
  cases h : table.carriers selector routes with
  | nil => simp [merge]
  | cons r rest =>
    have hr : table.hasMember selector r.type = true :=
      (List.mem_filter.mp (h ▸ List.mem_cons_self : r ∈ table.carriers selector routes)).2
    have hhits : table.hits selector ((Candidate.ofRoute r).marked
        (hasType (rest.map Candidate.ofRoute) (Candidate.ofRoute r).type)) ≠ [] := by
      rw [Ne, hits_eq_nil_iff]
      simp [Candidate.ofRoute, hr]
    simp [merge_cons, hhits]

theorem exists_ownMembers {type : TypeId} (h : table.hasMember selector type = true) :
    ∃ m ms, table.ownMembers selector type = m :: ms := by
  cases hown : table.ownMembers selector type with
  | nil => rw [(table.hasMember_eq_false_iff selector type).mpr hown] at h; simp at h
  | cons m ms => exact ⟨m, ms, rfl⟩

theorem flatMap_hits_merge_cons {r : Route} {m : SymbolId × Nat} {ms : List (SymbolId × Nat)}
    (hown : table.ownMembers selector r.type = m :: ms) (rest : List Route) :
    (merge ((r :: rest).map Candidate.ofRoute)).flatMap (table.hits selector) =
      ⟨m.1, r.path ++ [m.2], r.indirect, hasType (rest.map Candidate.ofRoute) r.type⟩ ::
        (ms.map (fun n => ⟨n.1, r.path ++ [n.2], r.indirect, hasType (rest.map Candidate.ofRoute) r.type⟩) ++
          ((merge (rest.map Candidate.ofRoute)).filter (·.type != r.type)).flatMap (table.hits selector)) := by
  simp [merge_cons, hits, Candidate.marked, Candidate.ofRoute, hown]

theorem hasType_ofRoute (routes : List Route) (type : TypeId) :
    hasType (routes.map Candidate.ofRoute) type = true ↔ 0 < routes.countP (·.type = type) := by
  rw [hasType_eq_true_iff, List.countP_pos_iff]
  simp [Candidate.ofRoute]

theorem verdict_merge_of_forall (addressable : Bool) {routes : List Route}
    (hall : ∀ r ∈ routes, table.hasMember selector r.type = true) {hit : Hit} {others : List Hit}
    (h : (merge (routes.map Candidate.ofRoute)).flatMap (table.hits selector) = hit :: others) :
    table.verdict addressable hit others = table.selectionOver selector addressable routes := by
  cases routes with
  | nil => simp [merge] at h
  | cons r rest =>
    obtain ⟨m, ms, hown⟩ := table.exists_ownMembers selector (hall r List.mem_cons_self)
    rw [table.flatMap_hits_merge_cons selector hown rest] at h
    obtain ⟨rfl, rfl⟩ := List.cons.inj h
    cases hagain : hasType (rest.map Candidate.ofRoute) r.type with
    | true =>
      rw [table.selectionOver_of_again selector addressable hown ((hasType_ofRoute rest r.type).mp hagain)]
      rfl
    | false =>
      have honce : rest.countP (·.type = r.type) = 0 := by
        apply Nat.eq_zero_of_not_pos
        intro hpos
        rw [(hasType_ofRoute rest r.type).mpr hpos] at hagain
        simp at hagain
      -- the second member is one of the same type, or the first one of the next route
      have hmembers := table.membersOf_cons selector hown rest
      rw [filter_of_hasType_eq_false ((hasType_merge _ _).trans hagain)]
      cases ms with
      | cons n ns =>
        rw [table.selectionOver_of_once selector addressable honce hmembers]
        rfl
      | nil =>
        cases rest with
        | nil => rw [table.selectionOver_single selector addressable hmembers]; rfl
        | cons s ss =>
          obtain ⟨n, ns, hnext⟩ := table.exists_ownMembers selector (hall s (by simp))
          rw [table.membersOf_cons selector hnext ss] at hmembers
          rw [table.selectionOver_of_once selector addressable honce hmembers,
            table.flatMap_hits_merge_cons selector hnext ss]
          rfl

/-- The hits of a merged level decide as the members of its routes do. -/
theorem verdict_merge (addressable : Bool) {routes : List Route} {hit : Hit} {others : List Hit}
    (h : (merge (routes.map Candidate.ofRoute)).flatMap (table.hits selector) = hit :: others) :
    table.verdict addressable hit others = table.selectionOver selector addressable routes := by
  rw [flatMap_hits_merge] at h
  rw [← selectionOver_carriers]
  exact table.verdict_merge_of_forall selector addressable (fun r hr => (List.mem_filter.mp hr).2) h

/-! Levels of the search and routes. -/

/-- The routes that a search from `start` has left after `depth` levels without a hit. No shorter route
    has a member, every type that was seen is met by a shorter route, and the first routes with a
    member are among those that follow the ones that are left. -/
structure Remaining (start : Route) (depth : Nat) (seen : List TypeId) (routes : List Route) : Prop where
  none_before : ∀ k < depth, table.carriers selector (table.routesFrom [start] k) = []
  seen_before : ∀ t ∈ seen, ∃ k < depth, ∃ r ∈ table.routesFrom [start] k, r.type = t
  mem_routes : ∀ r ∈ routes, r ∈ table.routesFrom [start] depth
  carriers_after : ∀ k, (∀ j < depth + k, table.carriers selector (table.routesFrom [start] j) = []) →
    table.carriers selector (table.routesFrom routes k) =
      table.carriers selector (table.routesFrom [start] (depth + k))

/-- The routes whose types were not seen before. -/
def unseenRoutes (seen : List TypeId) (routes : List Route) : List Route :=
  routes.filter fun r => !seen.contains r.type

section Levels
variable {table selector}
variable {start : Route} {depth : Nat} {seen : List TypeId} {routes : List Route}

theorem Remaining.initial (table : SymbolTable) (selector : Selector) (start : Route) :
    Remaining table selector start 0 [] [start] where
  none_before := fun k hk => absurd hk (Nat.not_lt_zero k)
  seen_before := by simp
  mem_routes := fun r hr => hr
  carriers_after := fun k _ => by rw [Nat.zero_add]

/-- A type that was seen before leads to no member: what it embeds is met at a lesser depth. -/
theorem Remaining.carriers_unseen (h : Remaining table selector start depth seen routes) (k : Nat)
    (hnone : ∀ j < depth + k, table.carriers selector (table.routesFrom [start] j) = []) :
    table.carriers selector (table.routesFrom (unseenRoutes seen routes) k) =
      table.carriers selector (table.routesFrom [start] (depth + k)) := by
  rw [← h.carriers_after k hnone]
  apply carriers_routesFrom_filter
  intro r _ hseen
  obtain ⟨j, hj, s, hs, htype⟩ := h.seen_before r.type (by simpa using hseen)
  apply table.carriers_routesFrom_eq_nil selector htype.symm
  have hless := hnone (j + k) (by omega)
  rw [← routesFrom_routesFrom] at hless
  apply List.filter_eq_nil_iff.mpr
  intro x hx
  exact List.filter_eq_nil_iff.mp hless x (table.mem_routesFrom_of_mem hs hx)

/-- One level without a hit. -/
theorem Remaining.step (h : Remaining table selector start depth seen routes)
    (hmiss : table.carriers selector (unseenRoutes seen routes) = []) {searched : List TypeId}
    (hsearched : ∀ t ∈ searched, ∃ r ∈ unseenRoutes seen routes, r.type = t) :
    Remaining table selector start (depth + 1) (searched ++ seen)
      ((unseenRoutes seen routes).flatMap table.extend) where
  none_before := by
    intro k hk
    by_cases hlt : k < depth
    · exact h.none_before k hlt
    · have heq : k = depth + 0 := by omega
      rw [heq, ← h.carriers_unseen 0 h.none_before]
      exact hmiss
  seen_before := by
    intro t ht
    rcases List.mem_append.mp ht with ht | ht
    · obtain ⟨r, hr, htype⟩ := hsearched t ht
      exact ⟨depth, by omega, r, h.mem_routes r (List.mem_filter.mp hr).1, htype⟩
    · obtain ⟨k, hk, r, hr, htype⟩ := h.seen_before t ht
      exact ⟨k, by omega, r, hr, htype⟩
  mem_routes := by
    intro r hr
    obtain ⟨s, hs, hrs⟩ := List.mem_flatMap.mp hr
    exact List.mem_flatMap.mpr ⟨s, h.mem_routes s (List.mem_filter.mp hs).1, hrs⟩
  carriers_after := by
    intro k hnone
    have hdepth : depth + 1 + k = depth + (k + 1) := by omega
    rw [hdepth] at hnone ⊢
    rw [routesFrom_extended, h.carriers_unseen (k + 1) hnone]

theorem Remaining.carriers_of_nil (h : Remaining table selector start depth seen []) (d : Nat) :
    table.carriers selector (table.routesFrom [start] d) = [] := by
  induction d using Nat.strongRecOn with
  | _ d ih =>
    -- `carriers_after` asks that no lesser depth has a member, which the induction gives
    by_cases hlt : d < depth
    · exact h.none_before d hlt
    · obtain ⟨k, rfl⟩ := Nat.exists_eq_add_of_le (Nat.le_of_not_lt hlt)
      rw [← h.carriers_after k ih, routesFrom_nil]
      rfl

theorem filter_merge_ofRoute (seen : List TypeId) (routes : List Route) :
    (merge (routes.map Candidate.ofRoute)).filter (fun c => !seen.contains c.type) =
      merge ((unseenRoutes seen routes).map Candidate.ofRoute) := by
  rw [← merge_filter (fun t => !seen.contains t), List.filter_map]
  rfl

theorem merge_deeper_ofRoute (routes : List Route) :
    merge ((merge (routes.map Candidate.ofRoute)).flatMap table.deeper) =
      merge ((routes.flatMap table.extend).map Candidate.ofRoute) := by
  rw [merge_flatMap_deeper, List.map_flatMap, List.flatMap_map]
  simp only [deeper_ofRoute]

/-- What a search that decides has found: the members at the least depth, or that there are none. -/
theorem Remaining.eq_of_searchLevels? (addressable : Bool) {answer : Selection} : ∀ {fuel depth : Nat}
    {seen : List TypeId} {routes : List Route}, Remaining table selector start depth seen routes →
    table.searchLevels? selector addressable fuel seen (merge (routes.map Candidate.ofRoute)) = some answer →
    (∃ d, (∀ k < d, table.carriers selector (table.routesFrom [start] k) = []) ∧
      table.carriers selector (table.routesFrom [start] d) ≠ [] ∧
      answer = table.selectionOver selector addressable (table.routesFrom [start] d)) ∨
    (∀ d, table.carriers selector (table.routesFrom [start] d) = []) ∧ answer = .notFound
  | fuel, _, _, [], h, hsearch => by
    refine Or.inr ⟨h.carriers_of_nil, ?_⟩
    simpa [merge, searchLevels?] using hsearch.symm
  | 0, _, _, r :: rest, h, hsearch => by
    simp [merge, searchLevels?] at hsearch
  | fuel + 1, depth, seen, r :: rest, h, hsearch => by
    have hcarriers : table.carriers selector (unseenRoutes seen (r :: rest)) =
        table.carriers selector (table.routesFrom [start] depth) := h.carriers_unseen 0 h.none_before
    rw [searchLevels?_succ _ _ _ _ (by simp [merge])] at hsearch
    simp only [filter_merge_ofRoute, merge_deeper_ofRoute] at hsearch
    split at hsearch
    · next hit others hhits =>
      -- the level has a hit, so this is the least depth, and pruned routes carry no member at it
      refine Or.inl ⟨depth, h.none_before, ?_, ?_⟩
      · intro hnone
        have hnil := (table.flatMap_hits_merge_eq_nil_iff selector _).mpr (hcarriers.trans hnone)
        rw [hnil] at hhits
        simp at hhits
      · rw [← Option.some.inj hsearch, table.verdict_merge selector addressable hhits]
        calc table.selectionOver selector addressable (unseenRoutes seen (r :: rest))
            = table.selectionOver selector addressable
                (table.carriers selector (unseenRoutes seen (r :: rest))) :=
              (table.selectionOver_carriers selector addressable _).symm
          _ = table.selectionOver selector addressable
                (table.carriers selector (table.routesFrom [start] depth)) := by rw [hcarriers]
          _ = table.selectionOver selector addressable (table.routesFrom [start] depth) :=
              table.selectionOver_carriers selector addressable _
    · next hhits =>
      have hmiss := (table.flatMap_hits_merge_eq_nil_iff selector _).mp hhits
      refine Remaining.eq_of_searchLevels? addressable (h.step hmiss ?_) hsearch
      intro t ht
      obtain ⟨c, hc, rfl⟩ := List.mem_map.mp (List.mem_filter.mp ht).1
      obtain ⟨d, hd, htype⟩ := exists_mem_of_mem_merge hc
      obtain ⟨s, hs, rfl⟩ := List.mem_map.mp hd
      exact ⟨s, hs, htype⟩

end Levels

/-- Searching a type gives what the rule of the least depth says about all embedding paths. -/
theorem searchMember_eq_shallowestMember (hacyclic : table.UnnamedAcyclic) (type : TypeId)
    (addressable : Bool) :
    table.searchMember type addressable selector = table.shallowestMember type addressable selector := by
  let start := table.startRoute type
  have hsome := searchLevels?_isSome hacyclic selector addressable ⟨start.type, [], start.indirect, false⟩
  obtain ⟨answer, hanswer⟩ := Option.isSome_iff_exists.mp hsome
  have hrule := (Remaining.initial table selector start).eq_of_searchLevels? addressable hanswer
  unfold searchMember shallowestMember
  dsimp only
  split
  · next hpointer => exact (if_pos hpointer).symm
  · next hpointer =>
    rw [if_neg (by exact hpointer)]
    change (table.searchLevels? selector addressable table.levelBound []
      [⟨start.type, [], start.indirect, false⟩]).getD .notFound = _
    rw [hanswer, Option.getD_some]
    rcases hrule with ⟨d, hbefore, hd, hselection⟩ | ⟨hnone, hselection⟩
    · have hmember : table.membersOf selector (table.routesFrom [start] d) ≠ [] :=
        fun hnil => hd ((table.membersOf_eq_nil_iff selector _).mp hnil)
      rw [dif_pos ⟨d, hmember⟩, hselection, (Nat.find_eq_iff _).mpr ⟨hmember, ?_⟩]
      intro k hk hcontra
      exact hcontra ((table.membersOf_eq_nil_iff selector _).mpr (hbefore k hk))
    · rw [dif_neg, hselection]
      intro hexists
      obtain ⟨d, hd⟩ := hexists
      exact hd ((table.membersOf_eq_nil_iff selector _).mpr (hnone d))

/-- Looking a member up gives what the rule of the least depth says about all embedding paths. -/
theorem lookupMember_eq_shallowestMember (table : SymbolTable) (hacyclic : table.UnnamedAcyclic)
    (type : TypeId) (hnamed : table.namedPointer? type = none) (addressable : Bool) (selector : Selector) :
    table.lookupMember type addressable selector = table.shallowestMember type addressable selector := by
  unfold lookupMember
  rw [hnamed]
  exact table.searchMember_eq_shallowestMember selector hacyclic type addressable

/-- A named type that embeds itself behind a pointer and, through two unnamed structs, one type twice. -/
def diamond : SymbolTable where
  symbols := [⟨"X", .field, some "p", none⟩, ⟨"D", .field, some "p", some ⟨1⟩⟩,
    ⟨"B", .field, some "p", some ⟨2⟩⟩, ⟨"C", .field, some "p", some ⟨3⟩⟩, ⟨"A", .field, some "p", some ⟨6⟩⟩]
  types := [.struct [⟨⟨0⟩, false⟩], .named ⟨1⟩ (some ⟨0⟩) [], .struct [⟨⟨1⟩, true⟩], .struct [⟨⟨1⟩, true⟩],
    .named ⟨4⟩ (some ⟨5⟩) [], .struct [⟨⟨2⟩, true⟩, ⟨⟨4⟩, true⟩, ⟨⟨3⟩, true⟩], .pointer ⟨4⟩]

theorem shallowestMember_diamond :
    diamond.UnnamedAcyclic ∧ diamond.namedPointer? ⟨4⟩ = none ∧
      diamond.shallowestMember ⟨4⟩ false ⟨"p", "X"⟩ = .ambiguous [0, 0, 0] := by
  have hacyclic : diamond.UnnamedAcyclic := unnamedAcyclic_of_addedInOrder (by decide)
  have hnamed : diamond.namedPointer? ⟨4⟩ = none := by decide
  refine ⟨hacyclic, hnamed, ?_⟩
  rw [← lookupMember_eq_shallowestMember diamond hacyclic ⟨4⟩ hnamed false ⟨"p", "X"⟩]
  decide

end ProgramIndex.SymbolTable
