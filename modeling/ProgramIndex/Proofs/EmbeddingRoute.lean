import Mathlib.Data.Nat.Find
import ProgramIndex.SymbolTable.Member

/- Members by the rule of the least depth, over all embedding paths. A route is one way from a type
   through embedded fields; `routesFrom` lists every route that follows a given number of them, with
   no pruning and no merging. The least number at which some route ends in a type with a member
   decides, and `selectionOver` says what the members at that depth amount to (`shallowestMember`).
   What a route leads to depends on its type alone (`carriers_routesFrom_eq_nil`), so routes that
   cannot lead to a member may be left out (`carriers_routesFrom_filter`). -/
namespace ProgramIndex

/-- A way to a type: the places of the embedded fields that were followed, and whether one of them
    was behind a pointer. -/
structure Route where
  type : TypeId
  path : List Nat
  indirect : Bool
deriving DecidableEq

/-- A member of the type at the end of a route, and its place there. -/
structure RoutedMember where
  route : Route
  symbol : SymbolId
  place : Nat
deriving DecidableEq

def RoutedMember.path (m : RoutedMember) : List Nat := m.route.path ++ [m.place]

namespace SymbolTable

/-! The rule. -/

/-- The routes that follow one more embedded field. -/
def extend (table : SymbolTable) (r : Route) : List Route :=
  (table.embeddings r.type).map fun e => ⟨e.type, r.path ++ [e.place], r.indirect || e.indirect⟩

/-- The routes that follow `depth` more embedded fields. -/
def routesFrom (table : SymbolTable) (routes : List Route) : Nat → List Route
  | 0 => routes
  | depth + 1 => (table.routesFrom routes depth).flatMap table.extend

def membersOf (table : SymbolTable) (selector : Selector) (routes : List Route) : List RoutedMember :=
  routes.flatMap fun r => (table.ownMembers selector r.type).map fun m => ⟨r, m.1, m.2⟩

/-- What the members at the end of routes of one depth amount to. One member is the answer, if its
    receiver can be had; several are ambiguous, and the path is that of the first one if another
    route leads to its type, or else that of the second. -/
def selectionOver (table : SymbolTable) (selector : Selector) (addressable : Bool) (routes : List Route) :
    Selection :=
  match table.membersOf selector routes with
  | [] => .notFound
  | [m] =>
    if table.hasPointerReceiver m.symbol && !m.route.indirect && !addressable then .notAddressable
    else .found m.symbol m.path m.route.indirect
  | first :: second :: _ =>
    .ambiguous (if 1 < routes.countP (·.type = first.route.type) then first.path else second.path)

/-- The route of length zero: a type, or what a pointer points to. -/
def startRoute (table : SymbolTable) (type : TypeId) : Route :=
  ⟨(table.deref type).1, [], (table.deref type).2⟩

open Classical in
/-- The member that a selector names by the rule of the least depth: the least number of embedded
    fields after which some route has a member decides. A pointer to an interface has no members. -/
noncomputable def shallowestMember (table : SymbolTable) (type : TypeId) (addressable : Bool)
    (selector : Selector) : Selection :=
  let start := table.startRoute type
  if start.indirect && (table.underlyingForm? start.type).any TypeForm.isInterface then
    .notFound
  else if h : ∃ depth, table.membersOf selector (table.routesFrom [start] depth) ≠ [] then
    table.selectionOver selector addressable (table.routesFrom [start] (Nat.find h))
  else
    .notFound

variable (table : SymbolTable) (selector : Selector)

theorem selectionOver_single (addressable : Bool) {routes : List Route} {m : RoutedMember}
    (h : table.membersOf selector routes = [m]) :
    table.selectionOver selector addressable routes =
      if table.hasPointerReceiver m.symbol && !m.route.indirect && !addressable then .notAddressable
      else .found m.symbol m.path m.route.indirect := by
  rw [selectionOver, h]

theorem selectionOver_several (addressable : Bool) {routes : List Route} {first second : RoutedMember}
    {rest : List RoutedMember} (h : table.membersOf selector routes = first :: second :: rest) :
    table.selectionOver selector addressable routes =
      .ambiguous (if 1 < routes.countP (·.type = first.route.type) then first.path else second.path) := by
  rw [selectionOver, h]

theorem membersOf_cons {r : Route} {m : SymbolId × Nat} {ms : List (SymbolId × Nat)}
    (h : table.ownMembers selector r.type = m :: ms) (rest : List Route) :
    table.membersOf selector (r :: rest) =
      ⟨r, m.1, m.2⟩ :: (ms.map (fun n => ⟨r, n.1, n.2⟩) ++ table.membersOf selector rest) := by
  simp [membersOf, h]

/-! Routes in steps. -/

theorem routesFrom_nil : ∀ depth, table.routesFrom [] depth = []
  | 0 => rfl
  | depth + 1 => by
    rw [routesFrom, routesFrom_nil depth]
    rfl

theorem routesFrom_append (first second : List Route) : ∀ depth,
    table.routesFrom (first ++ second) depth = table.routesFrom first depth ++ table.routesFrom second depth
  | 0 => rfl
  | depth + 1 => by
    simp only [routesFrom, routesFrom_append first second depth, List.flatMap_append]

theorem routesFrom_extended (routes : List Route) : ∀ depth,
    table.routesFrom (routes.flatMap table.extend) depth = table.routesFrom routes (depth + 1)
  | 0 => rfl
  | depth + 1 => by
    rw [routesFrom, routesFrom_extended routes depth]
    rfl

theorem routesFrom_routesFrom (routes : List Route) (first : Nat) : ∀ second,
    table.routesFrom (table.routesFrom routes first) second = table.routesFrom routes (first + second)
  | 0 => rfl
  | second + 1 => by
    rw [routesFrom, routesFrom_routesFrom routes first second]
    rfl

theorem mem_routesFrom_of_mem {routes : List Route} {r s : Route} (hr : r ∈ routes) {depth : Nat}
    (hs : s ∈ table.routesFrom [r] depth) : s ∈ table.routesFrom routes depth := by
  obtain ⟨before, after, rfl⟩ := List.append_of_mem hr
  rw [show before ++ r :: after = before ++ ([r] ++ after) from rfl, routesFrom_append, routesFrom_append]
  exact List.mem_append_right _ (List.mem_append_left _ hs)

theorem types_routesFrom {routes others : List Route} (h : routes.map Route.type = others.map Route.type) :
    ∀ depth, (table.routesFrom routes depth).map Route.type = (table.routesFrom others depth).map Route.type
  | 0 => h
  | depth + 1 => by
    have ih := types_routesFrom h depth
    have hstep : ∀ l : List Route, (l.flatMap table.extend).map Route.type =
        (l.map Route.type).flatMap fun t => (table.embeddings t).map Embedding.type := by
      intro l
      simp only [List.map_flatMap, List.flatMap_map, extend, List.map_map, Function.comp_def]
    simp only [routesFrom]
    rw [hstep, hstep, ih]

/-! Routes that end in a type with a member. -/

/-- Whether a type has a member of its own. -/
def hasMember (type : TypeId) : Bool := !(table.ownMembers selector type).isEmpty

/-- The routes that end in a type with a member. -/
def carriers (routes : List Route) : List Route := routes.filter fun r => table.hasMember selector r.type

theorem hasMember_eq_false_iff (type : TypeId) :
    table.hasMember selector type = false ↔ table.ownMembers selector type = [] := by
  simp [hasMember]

theorem membersOf_carriers (routes : List Route) :
    table.membersOf selector (table.carriers selector routes) = table.membersOf selector routes := by
  induction routes with
  | nil => rfl
  | cons r rest ih =>
    simp only [membersOf, carriers] at ih
    cases h : table.hasMember selector r.type with
    | true => simp [membersOf, carriers, h, ih]
    | false => simp [membersOf, carriers, h, ih, (table.hasMember_eq_false_iff selector r.type).mp h]

theorem membersOf_eq_nil_iff (routes : List Route) :
    table.membersOf selector routes = [] ↔ table.carriers selector routes = [] := by
  simp only [membersOf, carriers, List.flatMap_eq_nil_iff, List.map_eq_nil_iff, List.filter_eq_nil_iff,
    Bool.not_eq_true, hasMember_eq_false_iff]

theorem hasMember_of_mem_membersOf {routes : List Route} {m : RoutedMember}
    (h : m ∈ table.membersOf selector routes) : table.hasMember selector m.route.type = true := by
  obtain ⟨r, _, hm⟩ := List.mem_flatMap.mp h
  obtain ⟨own, hown, rfl⟩ := List.mem_map.mp hm
  simp only [hasMember, Bool.not_eq_true', List.isEmpty_eq_false_iff]
  exact List.ne_nil_of_mem hown

theorem countP_type_cons (r : Route) (rest : List Route) :
    (r :: rest).countP (·.type = r.type) = rest.countP (·.type = r.type) + 1 :=
  List.countP_cons_of_pos (by simp)

/-- If another route leads to the type of the first one, the members of that type come again. -/
theorem selectionOver_of_again (addressable : Bool) {r : Route} {m : SymbolId × Nat}
    {ms : List (SymbolId × Nat)} (h : table.ownMembers selector r.type = m :: ms) {rest : List Route}
    (hagain : 0 < rest.countP (·.type = r.type)) :
    table.selectionOver selector addressable (r :: rest) = .ambiguous (r.path ++ [m.2]) := by
  have hlater : table.membersOf selector rest ≠ [] := by
    obtain ⟨s, hs, htype⟩ := List.countP_pos_iff.mp hagain
    rw [Ne, membersOf_eq_nil_iff, carriers, List.filter_eq_nil_iff]
    intro hnone
    apply hnone s hs
    rw [of_decide_eq_true htype]
    simp [hasMember, h]
  have hmembers := table.membersOf_cons selector h rest
  obtain ⟨second, more, htail⟩ := List.exists_cons_of_ne_nil
    (List.append_ne_nil_of_right_ne_nil (ms.map fun n => (⟨r, n.1, n.2⟩ : RoutedMember)) hlater)
  rw [htail] at hmembers
  rw [table.selectionOver_several selector addressable hmembers, countP_type_cons r rest, if_pos (by omega)]
  rfl

theorem selectionOver_of_once (addressable : Bool) {r : Route} {rest : List Route}
    (honce : rest.countP (·.type = r.type) = 0) {m : SymbolId × Nat} {second : RoutedMember}
    {more : List RoutedMember} (h : table.membersOf selector (r :: rest) = ⟨r, m.1, m.2⟩ :: second :: more) :
    table.selectionOver selector addressable (r :: rest) = .ambiguous second.path := by
  rw [table.selectionOver_several selector addressable h, countP_type_cons r rest, if_neg (by omega)]

theorem selectionOver_carriers (addressable : Bool) (routes : List Route) :
    table.selectionOver selector addressable (table.carriers selector routes) =
      table.selectionOver selector addressable routes := by
  unfold selectionOver
  rw [membersOf_carriers]
  split
  · rfl
  · rfl
  · next first second rest hmembers =>
    have hfirst : table.hasMember selector first.route.type = true :=
      table.hasMember_of_mem_membersOf selector (by rw [hmembers]; exact List.mem_cons_self)
    have hcount : (table.carriers selector routes).countP (·.type = first.route.type) =
        routes.countP (·.type = first.route.type) := by
      rw [carriers, List.countP_filter]
      apply List.countP_congr
      intro r _
      by_cases hr : r.type = first.route.type
      · simp [hr, hfirst]
      · simp [hr]
    rw [hcount]

theorem carriers_append (first second : List Route) :
    table.carriers selector (first ++ second) =
      table.carriers selector first ++ table.carriers selector second :=
  List.filter_append ..

/-- Routes of one type lead to a member at the same depths. -/
theorem carriers_routesFrom_eq_nil {r s : Route} (htype : r.type = s.type) {depth : Nat}
    (hs : table.carriers selector (table.routesFrom [s] depth) = []) :
    table.carriers selector (table.routesFrom [r] depth) = [] := by
  have htypes : (table.routesFrom [r] depth).map Route.type = (table.routesFrom [s] depth).map Route.type :=
    table.types_routesFrom (by simp [htype]) depth
  simp only [carriers, List.filter_eq_nil_iff] at hs ⊢
  intro x hx
  have hmem : x.type ∈ (table.routesFrom [s] depth).map Route.type := by
    rw [← htypes]
    exact List.mem_map_of_mem hx
  obtain ⟨y, hy, hxy⟩ := List.mem_map.mp hmem
  rw [← hxy]
  exact hs y hy

/-- Routes that lead to no member may be left out. -/
theorem carriers_routesFrom_filter (keep : Route → Bool) (depth : Nat) : ∀ routes : List Route,
    (∀ r ∈ routes, keep r = false → table.carriers selector (table.routesFrom [r] depth) = []) →
    table.carriers selector (table.routesFrom (routes.filter keep) depth) =
      table.carriers selector (table.routesFrom routes depth)
  | [], _ => rfl
  | r :: rest, h => by
    have ih := carriers_routesFrom_filter keep depth rest
      (fun s hs hk => h s (List.mem_cons_of_mem r hs) hk)
    rw [show r :: rest = [r] ++ rest from rfl, routesFrom_append, carriers_append, ← ih]
    cases hk : keep r with
    | true =>
      rw [List.filter_append, show List.filter keep [r] = [r] by simp [hk], routesFrom_append,
        carriers_append]
    | false =>
      rw [List.filter_append, show List.filter keep [r] = [] by simp [hk], h r List.mem_cons_self hk]
      rfl

end SymbolTable

end ProgramIndex
