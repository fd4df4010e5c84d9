import Mathlib.Data.Finset.Card
import ProgramIndex.Scope
import ProgramIndex.Proofs.OrderedMap

/- Scopes over a whole history of insertions, in which any name may come again. An insertion of a name that is bound
   changes nothing (`insert_of_find?`), so after any insertions a name is bound to the symbol that it first came
   with (`find?_ofList_iff`), and the names stand in the order in which they first came (`names_ofList`). So a
   scope is the first-binding map of its history, and every insertion on the way answers by that map
   (`first_insertions_stand`). -/
namespace ProgramIndex.Scope

/-- A name came with a symbol, and did not come before that. -/
def CameFirst (history : List (String × SymbolId)) (name : String) (symbol : SymbolId) : Prop :=
  ∃ earlier later, history = earlier ++ (name, symbol) :: later ∧ ∀ b ∈ earlier, b.1 ≠ name

theorem CameFirst.append {history : List (String × SymbolId)} {name : String} {symbol : SymbolId}
    (h : CameFirst history name symbol) (more : List (String × SymbolId)) : CameFirst (history ++ more) name symbol := by
  obtain ⟨earlier, later, rfl, hnew⟩ := h
  exact ⟨earlier, later ++ more, List.append_assoc .., hnew⟩

/-! One insertion. -/

/-- A name that is bound keeps its symbol, which is the answer, and nothing changes. -/
theorem insert_of_find? {scope : Scope} {name : String} {bound : SymbolId} (h : scope.find? name = some bound)
    (symbol : SymbolId) : scope.insert name symbol = (scope, some bound) := by
  rw [insert, OrderedMap.insertIfNew_of_get? h, h]

theorem ofList_concat (history : List (String × SymbolId)) (name : String) (symbol : SymbolId) :
    ofList (history ++ [(name, symbol)]) = ((ofList history).insert name symbol).1 :=
  List.foldl_concat _ _ _ _

theorem mem_toList_iff (scope : Scope) (name : String) (symbol : SymbolId) :
    (name, symbol) ∈ scope.toList ↔ scope.find? name = some symbol :=
  (OrderedMap.get?_eq_some_iff scope.bindings name symbol).symm

/-! Many insertions. -/

theorem bindings_ofList (history : List (String × SymbolId)) :
    (ofList history).bindings = history.foldl (fun bindings b => bindings.insertIfNew b.1 b.2) .empty :=
  (List.foldl_hom bindings fun _ _ => rfl).symm

theorem names_ofList (history : List (String × SymbolId)) :
    (ofList history).bindings.keys = (history.map Prod.fst).eraseDups := by
  rw [bindings_ofList]
  exact OrderedMap.keys_foldl_update Prod.fst (fun b old => old.getD b.2) history .empty

theorem find?_ofList_iff (history : List (String × SymbolId)) (name : String) (symbol : SymbolId) :
    (ofList history).find? name = some symbol ↔ CameFirst history name symbol := by
  rw [find?, bindings_ofList, OrderedMap.get?_foldl_insertIfNew_eq_some_iff]
  constructor
  · rintro ⟨earlier, b, later, hhistory, rfl, rfl, hnew⟩
    exact ⟨earlier, later, hhistory, hnew⟩
  · rintro ⟨earlier, later, hhistory, hnew⟩
    exact ⟨earlier, (name, symbol), later, hhistory, rfl, rfl, hnew⟩

theorem find?_ofList_eq_none_iff (history : List (String × SymbolId)) (name : String) :
    (ofList history).find? name = none ↔ name ∉ history.map Prod.fst := by
  rw [find?, OrderedMap.get?_eq_none_iff, names_ofList, List.mem_eraseDups]

theorem size_ofList (history : List (String × SymbolId)) :
    (ofList history).size = (history.map Prod.fst).toFinset.card := by
  have hnames : (ofList history).bindings.keys.toFinset = (history.map Prod.fst).toFinset := by
    ext name
    rw [List.mem_toFinset, List.mem_toFinset, names_ofList, List.mem_eraseDups]
  calc (ofList history).size = (ofList history).bindings.keys.length := (OrderedMap.length_keys _).symm
    _ = (ofList history).bindings.keys.toFinset.card :=
      (List.toFinset_card_of_nodup (OrderedMap.nodup_keys _)).symm
    _ = (history.map Prod.fst).toFinset.card := by rw [hnames]

/-- After any insertions into an empty scope, each name that came is listed once, in the order in which the names
    first came and with the symbol that it first came with; that symbol is found for it, and none for other
    names, and the size counts the names. An insertion on the way leads to the scope of the longer history. It
    answers nothing exactly if its name is new; otherwise it answers the symbol that the name first came with and
    leaves the scope as it is. -/
theorem first_insertions_stand (history : List (String × SymbolId)) :
    let scope := ofList history
    scope.toList.map Prod.fst = (history.map Prod.fst).eraseDups ∧
    (∀ name symbol, (name, symbol) ∈ scope.toList ↔ CameFirst history name symbol) ∧
    (∀ name symbol, scope.find? name = some symbol ↔ CameFirst history name symbol) ∧
    (∀ name, scope.find? name = none ↔ name ∉ history.map Prod.fst) ∧
    scope.size = (history.map Prod.fst).toFinset.card ∧
    ∀ before name symbol after, history = before ++ (name, symbol) :: after →
      let inserted := (ofList before).insert name symbol
      inserted.1 = ofList (before ++ [(name, symbol)]) ∧
      (inserted.2 = none ↔ name ∉ before.map Prod.fst) ∧
      ∀ first, inserted.2 = some first → CameFirst history name first ∧ inserted.1 = ofList before := by
  intro scope
  refine ⟨names_ofList history, fun name symbol => ?_, find?_ofList_iff history,
    find?_ofList_eq_none_iff history, size_ofList history, fun before name symbol after hhistory => ?_⟩
  · rw [mem_toList_iff, find?_ofList_iff]
  · refine ⟨(ofList_concat before name symbol).symm, find?_ofList_eq_none_iff before name, fun first hfirst => ?_⟩
    -- the answer is what was found for the name
    have hfound : (ofList before).find? name = some first := hfirst
    have hcame : CameFirst before name first := (find?_ofList_iff before name first).mp hfound
    refine ⟨hhistory ▸ hcame.append _, ?_⟩
    rw [insert_of_find? hfound]

/-- Two names that come again, one of them with other symbols. -/
def repeatedBindings : List (String × SymbolId) :=
  [("F", ⟨3⟩), ("G", ⟨1⟩), ("F", ⟨0⟩), ("G", ⟨1⟩), ("F", ⟨3⟩)]

theorem first_insertions_stand_repeatedBindings :
    (ofList repeatedBindings).toList.map Prod.fst = ["F", "G"] ∧
    (ofList repeatedBindings).find? "F" = some ⟨3⟩ ∧ (ofList repeatedBindings).find? "H" = none ∧
    (ofList repeatedBindings).size = 2 ∧
    (ofList [("F", ⟨3⟩), ("G", ⟨1⟩)]).insert "F" ⟨0⟩ = (ofList [("F", ⟨3⟩), ("G", ⟨1⟩)], some ⟨3⟩) := by
  obtain ⟨hnames, _, hfound, hnone, hsize, hinsertion⟩ := first_insertions_stand repeatedBindings
  obtain ⟨_, _, hknown⟩ := hinsertion [("F", ⟨3⟩), ("G", ⟨1⟩)] "F" ⟨0⟩ [("G", ⟨1⟩), ("F", ⟨3⟩)] rfl
  have hanswer : ((ofList [("F", ⟨3⟩), ("G", ⟨1⟩)]).insert "F" ⟨0⟩).2 = some ⟨3⟩ := by decide
  obtain ⟨hcame, hsame⟩ := hknown ⟨3⟩ hanswer
  exact ⟨hnames.trans (by decide), (hfound "F" ⟨3⟩).mpr hcame, (hnone "H").mpr (by decide), hsize.trans (by decide),
    Prod.ext hsame hanswer⟩

end ProgramIndex.Scope
