import Mathlib.Data.List.Induction
import Mathlib.Order.Bounds.Basic
import ProgramIndex.Proofs.MemberSearch

/- The path of an answer, walked again. `replay?` follows embedded fields by their places and counts the
   pointers it strips; it knows nothing of levels, candidates or what was seen. A route is a path that can
   be walked so (`replay?_of_mem_routesFrom`, `exists_route_of_replay?`). So the path of an answer leads from
   the receiver to a member with the name, at the least depth that has one, and an answer is indirect
   exactly if the walk strips a pointer (`lookupMember_path_leads`). -/
namespace ProgramIndex

/-- Where a walk has come to: a type, and the number of pointers that were stripped on the way. -/
structure Stop where
  type : TypeId
  pointers : Nat
deriving DecidableEq

/-- The lists of a type that hold its members. -/
inductive MemberList where
  | declaredMethods
  | fields
  | interfaceMethods
deriving DecidableEq

namespace SymbolTable

/-- The symbols in one of a type's lists. -/
def membersIn (table : SymbolTable) (type : TypeId) : MemberList → List SymbolId
  | .declaredMethods => table.declaredMethods type
  | .fields =>
    match table.underlyingForm? type with
    | some (.struct fields) => fields.map Field.symbol
    | _ => []
  | .interfaceMethods =>
    match table.underlyingForm? type with
    | some (.interface methods) => methods
    | _ => []

/-- Comes to a type with one pointer stripped. -/
def arriveAt (table : SymbolTable) (pointers : Nat) (type : TypeId) : Stop :=
  match table.type? type with
  | some (.pointer element) => ⟨element, pointers + 1⟩
  | _ => ⟨type, pointers⟩

/-- Follows the embedded field at a place of a struct. -/
def follow? (table : SymbolTable) (stop : Stop) (place : Nat) : Option Stop :=
  match table.underlyingForm? stop.type with
  | some (.struct fields) => do
    let field ← fields[place]?
    let fieldType ← (table.symbol? field.symbol).bind (·.type)
    if field.embedded then some (table.arriveAt stop.pointers fieldType) else none
  | _ => none

/-- Follows embedded fields by their places, one after the other. -/
def replay? (table : SymbolTable) (start : Stop) (path : List Nat) : Option Stop :=
  path.foldlM table.follow? start

/-- Where a look-up starts: at the type, or at the pointer type behind its name. -/
def receiver (table : SymbolTable) (type : TypeId) : Stop :=
  table.arriveAt 0 ((table.namedPointer? type).getD type)

/-- A path leads to a type that has a member with the selector's name at a place of one of its lists. -/
structure LeadsTo (table : SymbolTable) (selector : Selector) (start : Stop) (path : List Nat) (stop : Stop)
    (list : MemberList) (place : Nat) (symbol : SymbolId) : Prop where
  replay : table.replay? start path = some stop
  member : (table.membersIn stop.type list)[place]? = some symbol
  answers : table.answersTo selector symbol = true

/-- No method that is declared on a type has the selector's name. -/
def NoneDeclared (table : SymbolTable) (selector : Selector) (type : TypeId) : Prop :=
  ∀ s ∈ table.declaredMethods type, table.answersTo selector s = false

/-- The numbers of embedded fields that lead to a member with the selector's name. -/
def memberDepths (table : SymbolTable) (selector : Selector) (start : Stop) : Set Nat :=
  { depth | ∃ path stop list place symbol,
    path.length = depth ∧ table.LeadsTo selector start path stop list place symbol }

variable (table : SymbolTable) (selector : Selector)

/-! Members and the lists they stand in. -/

theorem getElem?_of_mem_firstMethod {methods : List SymbolId} {m : SymbolId × Nat}
    (h : m ∈ table.firstMethod selector methods) :
    methods[m.2]? = some m.1 ∧ table.answersTo selector m.1 = true := by
  have hfind : methods.zipIdx.find? (fun m => table.answersTo selector m.1) = some m := Option.mem_toList.mp h
  have hanswers := List.find?_some hfind
  exact ⟨List.mem_zipIdx_iff_getElem?.mp (List.mem_of_find?_eq_some hfind), hanswers⟩

theorem firstMethod_eq_nil_iff (methods : List SymbolId) :
    table.firstMethod selector methods = [] ↔ ∀ s ∈ methods, table.answersTo selector s = false := by
  rw [firstMethod, Option.toList_eq_nil_iff, List.find?_eq_none]
  constructor
  · intro h s hs
    obtain ⟨place, hplace⟩ := List.mem_iff_getElem?.mp hs
    simpa using h (s, place) (List.mem_zipIdx_iff_getElem?.mpr hplace)
  · intro h m hm
    simpa using h m.1 (List.mem_of_getElem? (List.mem_zipIdx_iff_getElem?.mp hm))

theorem mem_namedFields_iff (fields : List Field) (m : SymbolId × Nat) :
    m ∈ table.namedFields selector fields ↔
      (fields.map Field.symbol)[m.2]? = some m.1 ∧ table.answersTo selector m.1 = true := by
  rw [namedFields, List.mem_map, List.getElem?_map, Option.map_eq_some_iff]
  constructor
  · rintro ⟨f, hf, rfl⟩
    obtain ⟨hmem, hanswers⟩ := List.mem_filter.mp hf
    exact ⟨⟨f.1, List.mem_zipIdx_iff_getElem?.mp hmem, rfl⟩, hanswers⟩
  · rintro ⟨⟨field, hfield, hsymbol⟩, hanswers⟩
    refine ⟨(field, m.2), List.mem_filter.mpr ⟨List.mem_zipIdx_iff_getElem?.mpr hfield, ?_⟩, ?_⟩
    · simpa [hsymbol] using hanswers
    · exact Prod.ext hsymbol rfl

theorem exists_list_of_mem_ownMembers {type : TypeId} {m : SymbolId × Nat}
    (h : m ∈ table.ownMembers selector type) :
    ∃ list, (table.membersIn type list)[m.2]? = some m.1 ∧ table.answersTo selector m.1 = true ∧
      (list ≠ .declaredMethods → table.NoneDeclared selector type) := by
  unfold ownMembers at h
  split at h
  · next hnone =>
    have hdeclared := (table.firstMethod_eq_nil_iff selector _).mp hnone
    split at h
    · next fields hform =>
      obtain ⟨hplace, hanswers⟩ := (table.mem_namedFields_iff selector fields m).mp h
      exact ⟨.fields, by simpa [membersIn, hform] using hplace, hanswers, fun _ => hdeclared⟩
    · next methods hform =>
      obtain ⟨hplace, hanswers⟩ := table.getElem?_of_mem_firstMethod selector h
      exact ⟨.interfaceMethods, by simpa [membersIn, hform] using hplace, hanswers, fun _ => hdeclared⟩
    · simp at h
  · obtain ⟨hplace, hanswers⟩ := table.getElem?_of_mem_firstMethod selector h
    exact ⟨.declaredMethods, hplace, hanswers, fun hne => absurd rfl hne⟩

theorem hasMember_of_mem_membersIn {type : TypeId} {list : MemberList} {s : SymbolId}
    (hs : s ∈ table.membersIn type list) (hanswers : table.answersTo selector s = true) :
    table.hasMember selector type = true := by
  apply eq_true_of_ne_false
  intro hnone
  have hown := (table.hasMember_eq_false_iff selector type).mp hnone
  unfold ownMembers at hown
  split at hown
  · next hdeclared =>
    -- no declared method has the name, so `s` is one of the underlying type's members
    have hdeclared := (table.firstMethod_eq_nil_iff selector _).mp hdeclared
    cases list with
    | declaredMethods => simp [hdeclared s hs] at hanswers
    | fields =>
      simp only [membersIn] at hs
      split at hs
      · next fields hform =>
        obtain ⟨place, hplace⟩ := List.mem_iff_getElem?.mp hs
        have hmem := (table.mem_namedFields_iff selector fields (s, place)).mpr ⟨hplace, hanswers⟩
        simp only [hform] at hown
        simp [hown] at hmem
      · simp at hs
    | interfaceMethods =>
      simp only [membersIn] at hs
      split at hs
      · next methods hform =>
        simp only [hform] at hown
        simp [(table.firstMethod_eq_nil_iff selector methods).mp hown s hs] at hanswers
      · simp at hs
  · next hne => exact hne hown

/-! Walks and routes. -/

theorem arriveAt_eq (pointers : Nat) (type : TypeId) :
    table.arriveAt pointers type = ⟨(table.deref type).1, pointers + (table.deref type).2.toNat⟩ := by
  unfold arriveAt deref
  cases table.type? type with
  | none => rfl
  | some form => cases form <;> rfl

theorem follow?_eq_some_iff (stop : Stop) (place : Nat) (next : Stop) :
    table.follow? stop place = some next ↔ ∃ e ∈ table.embeddings stop.type,
      e.place = place ∧ next = ⟨e.type, stop.pointers + e.indirect.toNat⟩ := by
  unfold follow?
  split
  · next fields hform =>
    simp only [embeddings, hform, List.mem_filterMap, Option.bind_eq_bind, Option.bind_eq_some_iff,
      arriveAt_eq, Option.ite_none_right_eq_some, Option.map_eq_some_iff]
    constructor
    · rintro ⟨field, hfield, fieldType, htype, hembedded, hnext⟩
      refine ⟨_, ⟨(field, place), List.mem_zipIdx_iff_getElem?.mpr hfield, hembedded, fieldType, htype, rfl⟩,
        rfl, ?_⟩
      exact (Option.some.inj hnext).symm
    · rintro ⟨e, ⟨f, hf, hembedded, fieldType, htype, rfl⟩, rfl, rfl⟩
      exact ⟨f.1, List.mem_zipIdx_iff_getElem?.mp hf, fieldType, htype, hembedded, rfl⟩
  · next hform =>
    have hnone : table.embeddings stop.type = [] := by
      unfold embeddings
      split
      · next fields hstruct => exact absurd hstruct (hform fields)
      · rfl
    simp [hnone]

theorem replay?_concat (start : Stop) (path : List Nat) (place : Nat) :
    table.replay? start (path ++ [place]) = (table.replay? start path).bind (table.follow? · place) := by
  simp [replay?, List.foldlM_append]

/-- A route and a stop agree on the type and on whether a pointer was stripped. -/
def Agree (r : Route) (stop : Stop) : Prop := r.type = stop.type ∧ (r.indirect = true ↔ 0 < stop.pointers)

theorem agree_startRoute (type : TypeId) : Agree (table.startRoute type) (table.arriveAt 0 type) := by
  rw [arriveAt_eq]
  refine ⟨rfl, ?_⟩
  cases h : (table.deref type).2 <;> simp [startRoute, h]

/-- One more field: a route and a stop that agree go on to routes and stops that agree. -/
theorem Agree.extend {r : Route} {stop : Stop} (h : Agree r stop) (e : Embedding) :
    Agree ⟨e.type, r.path ++ [e.place], r.indirect || e.indirect⟩
      ⟨e.type, stop.pointers + e.indirect.toNat⟩ := by
  refine ⟨rfl, ?_⟩
  have hindirect := h.2
  cases e.indirect with
  | false => simpa using hindirect
  | true => simp

/-- A route of some depth is a path of that length that can be walked. -/
theorem replay?_of_mem_routesFrom {type : TypeId} : ∀ {depth : Nat} {r : Route},
    r ∈ table.routesFrom [table.startRoute type] depth →
    r.path.length = depth ∧ ∃ stop, table.replay? (table.arriveAt 0 type) r.path = some stop ∧ Agree r stop
  | 0, r, h => by
    obtain rfl := List.mem_singleton.mp h
    exact ⟨rfl, _, rfl, table.agree_startRoute type⟩
  | depth + 1, r, h => by
    obtain ⟨s, hs, hr⟩ := List.mem_flatMap.mp h
    obtain ⟨hlength, stop, hreplay, hagree⟩ := replay?_of_mem_routesFrom hs
    obtain ⟨e, he, rfl⟩ := List.mem_map.mp hr
    refine ⟨by simp [hlength], ⟨e.type, stop.pointers + e.indirect.toNat⟩, ?_, hagree.extend e⟩
    rw [replay?_concat, hreplay, Option.bind_some, follow?_eq_some_iff]
    exact ⟨e, hagree.1 ▸ he, rfl, rfl⟩

/-- A path that can be walked is a route of its length. -/
theorem exists_route_of_replay? {type : TypeId} (path : List Nat) {stop : Stop}
    (h : table.replay? (table.arriveAt 0 type) path = some stop) :
    ∃ r ∈ table.routesFrom [table.startRoute type] path.length, r.path = path ∧ Agree r stop := by
  induction path using List.reverseRecOn generalizing stop with
  | nil =>
    obtain rfl : table.arriveAt 0 type = stop := Option.some.inj h
    exact ⟨_, List.mem_singleton.mpr rfl, rfl, table.agree_startRoute type⟩
  | append_singleton path place ih =>
    rw [replay?_concat, Option.bind_eq_some_iff] at h
    obtain ⟨before, hbefore, hfollow⟩ := h
    obtain ⟨r, hr, hpath, hagree⟩ := ih hbefore
    obtain ⟨e, he, rfl, rfl⟩ := (table.follow?_eq_some_iff before place stop).mp hfollow
    refine ⟨_, ?_, ?_, hagree.extend e⟩
    · rw [List.length_append, List.length_singleton]
      exact List.mem_flatMap.mpr ⟨r, hr, List.mem_map_of_mem (hagree.1 ▸ he)⟩
    · rw [hpath]

/-! Members at the end of routes. -/

theorem leadsTo_of_mem_membersOf {type : TypeId} {depth : Nat} {m : RoutedMember}
    (h : m ∈ table.membersOf selector (table.routesFrom [table.startRoute type] depth)) :
    m.route.path.length = depth ∧ ∃ stop list,
      table.LeadsTo selector (table.arriveAt 0 type) m.route.path stop list m.place m.symbol ∧
      (m.route.indirect = true ↔ 0 < stop.pointers) ∧
      (list ≠ .declaredMethods → table.NoneDeclared selector stop.type) := by
  obtain ⟨r, hr, hm⟩ := List.mem_flatMap.mp h
  obtain ⟨own, hown, rfl⟩ := List.mem_map.mp hm
  obtain ⟨hlength, stop, hreplay, htype, hindirect⟩ := table.replay?_of_mem_routesFrom hr
  obtain ⟨list, hmember, hanswers, hdeclared⟩ := table.exists_list_of_mem_ownMembers selector hown
  rw [htype] at hmember hdeclared
  exact ⟨hlength, stop, list, ⟨hreplay, hmember, hanswers⟩, hindirect, hdeclared⟩

theorem mem_memberDepths_iff (type : TypeId) (depth : Nat) :
    depth ∈ table.memberDepths selector (table.arriveAt 0 type) ↔
      table.membersOf selector (table.routesFrom [table.startRoute type] depth) ≠ [] := by
  constructor
  · rintro ⟨path, stop, list, place, symbol, rfl, hleads⟩
    obtain ⟨r, hr, _, htype, _⟩ := table.exists_route_of_replay? path hleads.replay
    have hmember : table.hasMember selector r.type = true := by
      rw [htype]
      exact table.hasMember_of_mem_membersIn selector (List.mem_of_getElem? hleads.member) hleads.answers
    rw [Ne, membersOf_eq_nil_iff]
    exact List.ne_nil_of_mem (List.mem_filter.mpr ⟨hr, hmember⟩)
  · intro h
    obtain ⟨m, hm⟩ := List.exists_mem_of_ne_nil _ h
    obtain ⟨hlength, stop, list, hleads, _⟩ := table.leadsTo_of_mem_membersOf selector hm
    exact ⟨m.route.path, stop, list, m.place, m.symbol, hlength, hleads⟩

/-! The path of an answer. -/

theorem exists_member_of_selectionOver_found {addressable : Bool} {routes : List Route} {symbol : SymbolId}
    {index : List Nat} {indirect : Bool}
    (h : table.selectionOver selector addressable routes = .found symbol index indirect) :
    ∃ m ∈ table.membersOf selector routes, m.symbol = symbol ∧ m.path = index ∧ m.route.indirect = indirect := by
  unfold selectionOver at h
  split at h
  · simp at h
  · next m hmembers =>
    split at h
    · simp at h
    · obtain ⟨hsymbol, hpath, hindirect⟩ := Selection.found.inj h
      exact ⟨m, by simp [hmembers], hsymbol, hpath, hindirect⟩
  · simp at h

theorem exists_member_of_selectionOver_ambiguous {addressable : Bool} {routes : List Route} {index : List Nat}
    (h : table.selectionOver selector addressable routes = .ambiguous index) :
    ∃ m ∈ table.membersOf selector routes, m.path = index := by
  unfold selectionOver at h
  split at h
  · simp at h
  · split at h <;> simp at h
  · next first second rest hmembers =>
    have hpath := Selection.ambiguous.inj h
    split at hpath
    · exact ⟨first, by simp [hmembers], hpath⟩
    · exact ⟨second, by simp [hmembers], hpath⟩

theorem exists_depth_of_searchMember (hacyclic : table.UnnamedAcyclic) {type : TypeId} {addressable : Bool}
    (h : table.searchMember type addressable selector ≠ .notFound) :
    ∃ depth, IsLeast (table.memberDepths selector (table.arriveAt 0 type)) depth ∧
      table.searchMember type addressable selector =
        table.selectionOver selector addressable (table.routesFrom [table.startRoute type] depth) := by
  classical
  rw [searchMember_eq_shallowestMember table selector hacyclic] at h ⊢
  unfold shallowestMember at h ⊢
  dsimp only at h ⊢
  split at h
  · exact absurd rfl h
  · next hpointer =>
    split at h
    · next hexists =>
      rw [if_neg hpointer, dif_pos hexists]
      refine ⟨Nat.find hexists, ⟨?_, ?_⟩, rfl⟩
      · exact (table.mem_memberDepths_iff selector type _).mpr (Nat.find_spec hexists)
      · intro depth hdepth
        exact Nat.find_min' hexists ((table.mem_memberDepths_iff selector type depth).mp hdepth)
    · exact absurd rfl h

theorem lookupMember_eq_searchMember {type : TypeId} (h : table.namedPointer? type = none) (addressable : Bool) :
    table.lookupMember type addressable selector = table.searchMember type addressable selector := by
  unfold lookupMember
  rw [h]

theorem exists_searchMember_of_lookupMember {type : TypeId} {addressable : Bool} {answer : Selection}
    (h : table.lookupMember type addressable selector = answer) (hfound : answer ≠ .notFound) :
    ∃ granted, table.searchMember ((table.namedPointer? type).getD type) granted selector = answer := by
  cases hpointer : table.namedPointer? type with
  | none =>
    rw [lookupMember_eq_searchMember table selector hpointer] at h
    exact ⟨addressable, h⟩
  | some pointer =>
    unfold lookupMember at h
    rw [hpointer] at h
    refine ⟨false, ?_⟩
    dsimp only at h
    split at h
    · next hsearch =>
      split at h
      · exact absurd h.symm hfound
      · exact hsearch.trans h
    · exact h

/-- A look-up that finds anything has decided by the members at the least depth from the receiver. -/
theorem exists_depth_of_lookupMember (hacyclic : table.UnnamedAcyclic) {type : TypeId} {addressable : Bool}
    {answer : Selection} (h : table.lookupMember type addressable selector = answer)
    (hfound : answer ≠ .notFound) :
    ∃ granted depth, IsLeast (table.memberDepths selector (table.receiver type)) depth ∧
      table.selectionOver selector granted
        (table.routesFrom [table.startRoute ((table.namedPointer? type).getD type)] depth) = answer := by
  obtain ⟨granted, hsearch⟩ := table.exists_searchMember_of_lookupMember selector h hfound
  obtain ⟨depth, hleast, hselection⟩ :=
    table.exists_depth_of_searchMember selector hacyclic (hsearch ▸ hfound)
  exact ⟨granted, depth, hleast, hselection.symm.trans hsearch⟩

theorem leadsTo_of_found (hacyclic : table.UnnamedAcyclic) {type : TypeId} {addressable : Bool}
    {symbol : SymbolId} {index : List Nat} {indirect : Bool}
    (h : table.lookupMember type addressable selector = .found symbol index indirect) :
    ∃ path stop list place, index = path ++ [place] ∧
      table.LeadsTo selector (table.receiver type) path stop list place symbol ∧
      (indirect = true ↔ 0 < stop.pointers) ∧
      IsLeast (table.memberDepths selector (table.receiver type)) path.length ∧
      (list ≠ .declaredMethods → table.NoneDeclared selector stop.type) := by
  obtain ⟨granted, depth, hleast, hselection⟩ := table.exists_depth_of_lookupMember selector hacyclic h (by simp)
  obtain ⟨m, hm, rfl, rfl, rfl⟩ := table.exists_member_of_selectionOver_found selector hselection
  obtain ⟨rfl, stop, list, hleads, hindirect, hdeclared⟩ := table.leadsTo_of_mem_membersOf selector hm
  exact ⟨m.route.path, stop, list, m.place, rfl, hleads, hindirect, hleast, hdeclared⟩

/-- The path of an answer leads from the receiver to a member with the name: all its places but the last
    follow embedded fields, and the last one is the member's in a list of the type that is reached. No
    member with the name is met by fewer fields. A member that was found is the one the path leads to,
    and was found indirectly exactly if a pointer is stripped at the receiver or on the way. -/
theorem lookupMember_path_leads (table : SymbolTable) (hacyclic : table.UnnamedAcyclic) (type : TypeId)
    (addressable : Bool) (selector : Selector) :
    (∀ symbol index indirect, table.lookupMember type addressable selector = .found symbol index indirect →
      ∃ path stop list place, index = path ++ [place] ∧
        table.LeadsTo selector (table.receiver type) path stop list place symbol ∧
        (indirect = true ↔ 0 < stop.pointers) ∧
        IsLeast (table.memberDepths selector (table.receiver type)) path.length) ∧
    ∀ index, table.lookupMember type addressable selector = .ambiguous index →
      ∃ path stop list place symbol, index = path ++ [place] ∧
        table.LeadsTo selector (table.receiver type) path stop list place symbol ∧
        IsLeast (table.memberDepths selector (table.receiver type)) path.length := by
  refine ⟨fun symbol index indirect h => ?_, fun index h => ?_⟩
  · obtain ⟨path, stop, list, place, hindex, hleads, hindirect, hleast, _⟩ :=
      table.leadsTo_of_found selector hacyclic h
    exact ⟨path, stop, list, place, hindex, hleads, hindirect, hleast⟩
  · obtain ⟨granted, depth, hleast, hselection⟩ := table.exists_depth_of_lookupMember selector hacyclic h (by simp)
    obtain ⟨m, hm, rfl⟩ := table.exists_member_of_selectionOver_ambiguous selector hselection
    obtain ⟨rfl, stop, list, hleads, _⟩ := table.leadsTo_of_mem_membersOf selector hm
    exact ⟨m.route.path, stop, list, m.place, m.symbol, rfl, hleads, hleast⟩

/-- A name for a pointer to a struct that embeds another one behind a pointer, and beside it an unnamed
    struct. Both embedded structs have a field of the same name. -/
def promoting : SymbolTable where
  symbols := [⟨"X", .field, some "p", none⟩, ⟨"Y", .field, some "p", none⟩, ⟨"Y", .field, some "p", none⟩,
    ⟨"Inner", .field, some "p", some ⟨2⟩⟩, ⟨"Beside", .field, some "p", some ⟨3⟩⟩]
  types := [.struct [⟨⟨1⟩, false⟩, ⟨⟨0⟩, false⟩], .named ⟨3⟩ (some ⟨0⟩) [], .pointer ⟨1⟩, .struct [⟨⟨2⟩, false⟩],
    .struct [⟨⟨3⟩, true⟩, ⟨⟨4⟩, true⟩], .pointer ⟨4⟩, .named ⟨9⟩ (some ⟨5⟩) []]

/-- A field is found behind two pointers, the one behind the name and that of the embedded field. The name
    that both embedded structs have is in conflict after one field. -/
theorem lookupMember_path_leads_promoting :
    promoting.UnnamedAcyclic ∧
    (∃ stop list, promoting.LeadsTo ⟨"p", "X"⟩ (promoting.receiver ⟨6⟩) [0] stop list 1 ⟨0⟩ ∧ 0 < stop.pointers) ∧
    (∃ stop list symbol, promoting.LeadsTo ⟨"p", "Y"⟩ (promoting.receiver ⟨6⟩) [1] stop list 0 symbol) ∧
    IsLeast (promoting.memberDepths ⟨"p", "Y"⟩ (promoting.receiver ⟨6⟩)) 1 := by
  have hacyclic : promoting.UnnamedAcyclic := unnamedAcyclic_of_addedInOrder (by decide)
  obtain ⟨path, stop, list, place, hindex, hleads, hindirect, _⟩ :=
    (lookupMember_path_leads promoting hacyclic ⟨6⟩ false ⟨"p", "X"⟩).1 ⟨0⟩ [0, 1] true (by decide)
  obtain ⟨rfl, rfl⟩ : path = [0] ∧ place = 1 := List.append_singleton_inj.mp hindex.symm
  obtain ⟨path, other, otherList, place, symbol, hindex, hconflict, hleast⟩ :=
    (lookupMember_path_leads promoting hacyclic ⟨6⟩ false ⟨"p", "Y"⟩).2 [1, 0] (by decide)
  obtain ⟨rfl, rfl⟩ : path = [1] ∧ place = 0 := List.append_singleton_inj.mp hindex.symm
  exact ⟨hacyclic, ⟨stop, list, hleads, hindirect.mp rfl⟩, ⟨other, otherList, symbol, hconflict⟩, hleast⟩

end SymbolTable

end ProgramIndex
