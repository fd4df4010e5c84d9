import ProgramIndex.SymbolTable

/- Symbol tables over a whole history. A table is built by six kinds of steps, in any order and with numbers that may
   belong to nothing. One step leaves every entry as it is but for what it gives to that entry (`symbol?_step`,
   `type?_step`), and so do many: a symbol has the type that was given to it last, and a named type the underlying
   type that was set last and its methods in the order in which they came (`symbol?_run`, `type?_run`). So a table
   is what its history says (`entries_follow_history`): the numbers count the additions, an entry stays what it was
   when it was added except for what later steps gave it, and a step that finds no entry to change changes
   nothing. -/
namespace ProgramIndex

/-- A step that builds a symbol table. -/
inductive TableStep where
  | addSymbol (symbol : Symbol)
  | addType (form : TypeForm)
  | declareType (symbol : SymbolId)
  | assignType (symbol : SymbolId) (type : TypeId)
  | setUnderlying (named type : TypeId)
  | addMethod (named : TypeId) (method : SymbolId)

namespace TableStep

/-! What one step adds, and what it gives to an entry. -/

/-- The symbol that a step adds. -/
def newSymbol? : TableStep → Option Symbol
  | .addSymbol symbol => some symbol
  | _ => none

/-- The type that a step adds; a declared type has nothing behind it yet. -/
def newForm? : TableStep → Option TypeForm
  | .addType form => some form
  | .declareType symbol => some (.named symbol none [])
  | _ => none

/-- The type that a step gives to a symbol, if the next type to be added gets the number `next`. -/
def typeFor? (symbol : SymbolId) (next : TypeId) : TableStep → Option TypeId
  | .declareType other => if other = symbol then some next else none
  | .assignType other type => if other = symbol then some type else none
  | _ => none

/-- The underlying type that a step sets for a named type. -/
def underlyingFor? (named : TypeId) : TableStep → Option TypeId
  | .setUnderlying other type => if other = named then some type else none
  | _ => none

/-- The method that a step adds to a named type. -/
def methodFor? (named : TypeId) : TableStep → Option SymbolId
  | .addMethod other method => if other = named then some method else none
  | _ => none

/-! The same of a history. -/

def newSymbols (steps : List TableStep) : List Symbol := steps.filterMap newSymbol?

def newForms (steps : List TableStep) : List TypeForm := steps.filterMap newForm?

/-- The type that steps give to a symbol last, if there are so many types when they begin. -/
def lastTypeFor? (symbol : SymbolId) : Nat → List TableStep → Option TypeId
  | _, [] => none
  | types, s :: rest =>
    (lastTypeFor? symbol (types + (newForms [s]).length) rest).or (s.typeFor? symbol ⟨types⟩)

/-- The underlying type that steps set last for a named type. -/
def lastUnderlyingFor? (named : TypeId) (steps : List TableStep) : Option TypeId :=
  steps.reverse.findSome? (underlyingFor? named)

/-- The methods that steps add to a named type, in order. -/
def methodsFor (named : TypeId) (steps : List TableStep) : List SymbolId := steps.filterMap (methodFor? named)

theorem newSymbols_cons (s : TableStep) (rest : List TableStep) :
    newSymbols (s :: rest) = newSymbols [s] ++ newSymbols rest := by
  cases h : s.newSymbol? <;> simp [newSymbols, h]

theorem newForms_cons (s : TableStep) (rest : List TableStep) :
    newForms (s :: rest) = newForms [s] ++ newForms rest := by
  cases h : s.newForm? <;> simp [newForms, h]

theorem methodsFor_cons (named : TypeId) (s : TableStep) (rest : List TableStep) :
    methodsFor named (s :: rest) = (s.methodFor? named).toList ++ methodsFor named rest := by
  cases h : s.methodFor? named <;> simp [methodsFor, h]

theorem lastUnderlyingFor?_cons (named : TypeId) (s : TableStep) (rest : List TableStep) :
    lastUnderlyingFor? named (s :: rest) = (lastUnderlyingFor? named rest).or (s.underlyingFor? named) := by
  simp [lastUnderlyingFor?, List.findSome?_append]

end TableStep

namespace TypeForm

/-- A named type with a later underlying type, if there is one, and with more methods; any other type as it is. -/
def completed (underlying : Option TypeId) (methods : List SymbolId) : TypeForm → TypeForm
  | .named symbol before declared => .named symbol (underlying.or before) (declared ++ methods)
  | form => form

theorem completed_none_nil (form : TypeForm) : form.completed none [] = form := by
  cases form <;> simp [completed]

theorem completed_completed (form : TypeForm) (first second : Option TypeId) (methods more : List SymbolId) :
    (form.completed first methods).completed second more = form.completed (second.or first) (methods ++ more) := by
  cases form <;> simp [completed, Option.or_assoc]

theorem withUnderlying_eq_completed (type : TypeId) (form : TypeForm) :
    form.withUnderlying type = form.completed (some type) [] := by
  cases form <;> simp [completed, withUnderlying]

theorem withMethod_eq_completed (method : SymbolId) (form : TypeForm) :
    form.withMethod method = form.completed none [method] := by
  cases form <;> simp [completed, withMethod]

theorem completed_of_not_named {form : TypeForm} (h : form.isNamed = false) (underlying : Option TypeId)
    (methods : List SymbolId) : form.completed underlying methods = form := by
  cases form with
  | named => cases h
  | _ => rfl

end TypeForm

namespace SymbolTable

def step (table : SymbolTable) : TableStep → SymbolTable
  | .addSymbol symbol => (table.addSymbol symbol).1
  | .addType form => (table.addType form).1
  | .declareType symbol => (table.declareType symbol).1
  | .assignType symbol type => table.assignType symbol type
  | .setUnderlying named type => table.setUnderlying named type
  | .addMethod named method => table.addMethod named method

def run (table : SymbolTable) (steps : List TableStep) : SymbolTable := steps.foldl step table

/-- The table that steps make of an empty one. -/
def ofSteps (steps : List TableStep) : SymbolTable := run {} steps

/-- The number that is answered for the type that a step adds. -/
def answer? (table : SymbolTable) : TableStep → Option TypeId
  | .addType form => some (table.addType form).2
  | .declareType symbol => some (table.declareType symbol).2
  | _ => none

/-- A step that is to change an entry and finds none: the symbol is unknown, or the type is unknown or not named. -/
def Idle (table : SymbolTable) : TableStep → Prop
  | .assignType symbol _ => table.symbol? symbol = none
  | .setUnderlying named _ => ∀ form, table.type? named = some form → form.isNamed = false
  | .addMethod named _ => ∀ form, table.type? named = some form → form.isNamed = false
  | _ => False

/-! One step. -/

theorem length_symbols_step (table : SymbolTable) (s : TableStep) :
    (table.step s).symbols.length = table.symbols.length + (TableStep.newSymbols [s]).length := by
  cases s with
  | addSymbol symbol => exact List.length_append
  | declareType symbol => exact List.length_modify _ _ _
  | assignType symbol type => exact List.length_modify _ _ _
  | _ => rfl

theorem length_types_step (table : SymbolTable) (s : TableStep) :
    (table.step s).types.length = table.types.length + (TableStep.newForms [s]).length := by
  cases s with
  | addType form => exact List.length_append
  | declareType symbol => exact List.length_append
  | setUnderlying named type => exact List.length_modify _ _ _
  | addMethod named method => exact List.length_modify _ _ _
  | _ => rfl

/-- A step changes nothing about a symbol but its type, and that only if it gives one to this symbol. -/
theorem symbol?_step {table : SymbolTable} {id : SymbolId} {symbol : Symbol} (h : table.symbol? id = some symbol)
    (s : TableStep) :
    (table.step s).symbol? id =
      some { symbol with type := (s.typeFor? id ⟨table.types.length⟩).or symbol.type } := by
  cases s with
  | addSymbol added =>
    have hlt : id.index < table.symbols.length := (List.getElem?_eq_some_iff.mp h).1
    exact (table.symbol?_addSymbol_of_lt added id hlt).trans h
  | declareType other =>
    -- the symbols are those of the table with the new type added, which are the same as before
    show ((table.addType (.named other none [])).1.assignType other ⟨table.types.length⟩).symbol? id = _
    rw [symbol?_assignType]
    show (table.symbol? id).map _ = _
    rw [h, Option.map_some, TableStep.typeFor?]
    split <;> rfl
  | assignType other type =>
    show (table.assignType other type).symbol? id = _
    rw [symbol?_assignType, h, Option.map_some, TableStep.typeFor?]
    split <;> rfl
  | _ => exact h

/-- A step changes nothing about a type but the underlying type and the methods of a named one, and that only if it
    gives them to this type. -/
theorem type?_step {table : SymbolTable} {id : TypeId} {form : TypeForm} (h : table.type? id = some form)
    (s : TableStep) :
    (table.step s).type? id = some (form.completed (s.underlyingFor? id) (s.methodFor? id).toList) := by
  have hlt : id.index < table.types.length := (List.getElem?_eq_some_iff.mp h).1
  have hsame : some form = some (form.completed none []) := by rw [TypeForm.completed_none_nil]
  cases s with
  | addSymbol symbol => exact h.trans hsame
  | assignType symbol type => exact h.trans hsame
  | addType added => exact ((table.type?_addType_of_lt added id hlt).trans h).trans hsame
  | declareType symbol => exact ((table.type?_addType_of_lt (.named symbol none []) id hlt).trans h).trans hsame
  | setUnderlying named type =>
    show (table.setUnderlying named type).type? id = _
    rw [type?_setUnderlying, h, Option.map_some, TableStep.underlyingFor?]
    split
    · rw [TypeForm.withUnderlying_eq_completed]
      rfl
    · exact hsame
  | addMethod named method =>
    show (table.addMethod named method).type? id = _
    rw [type?_addMethod, h, Option.map_some, TableStep.methodFor?]
    split
    · rw [TypeForm.withMethod_eq_completed]
      rfl
    · exact hsame

theorem modify_types_eq {table : SymbolTable} {named : TypeId} {change : TypeForm → TypeForm}
    (h : ∀ form, table.type? named = some form → change form = form) :
    table.types.modify named.index change = table.types := by
  apply List.ext_getElem?
  intro i
  rw [List.getElem?_modify]
  split
  · next heq =>
    subst heq
    cases hform : table.types[named.index]? with
    | none => rfl
    | some form => exact congrArg some (h form hform)
  · exact Option.map_id'

theorem step_of_idle {table : SymbolTable} {s : TableStep} (h : table.Idle s) : table.step s = table := by
  cases s with
  | assignType symbol type =>
    have hle : table.symbols.length ≤ symbol.index := List.getElem?_eq_none_iff.mp h
    show { table with symbols := table.symbols.modify symbol.index _ } = table
    rw [List.modify_eq_self hle]
  | setUnderlying named type =>
    show { table with types := table.types.modify named.index _ } = table
    rw [modify_types_eq fun form hform => ?_]
    rw [TypeForm.withUnderlying_eq_completed, TypeForm.completed_of_not_named (h form hform)]
  | addMethod named method =>
    show { table with types := table.types.modify named.index _ } = table
    rw [modify_types_eq fun form hform => ?_]
    rw [TypeForm.withMethod_eq_completed, TypeForm.completed_of_not_named (h form hform)]
  | _ => exact h.elim

theorem declareType_of_unknown {table : SymbolTable} {symbol : SymbolId} (h : table.symbol? symbol = none) :
    (table.declareType symbol).1 = (table.addType (.named symbol none [])).1 := by
  have hidle : (table.addType (.named symbol none [])).1.Idle (.assignType symbol ⟨table.types.length⟩) := h
  exact step_of_idle hidle

/-! Many steps. -/

theorem length_symbols_run (table : SymbolTable) (steps : List TableStep) :
    (table.run steps).symbols.length = table.symbols.length + (TableStep.newSymbols steps).length := by
  induction steps generalizing table with
  | nil => rfl
  | cons s rest ih =>
    calc ((table.step s).run rest).symbols.length
        = (table.step s).symbols.length + (TableStep.newSymbols rest).length := ih (table.step s)
      _ = table.symbols.length + (TableStep.newSymbols (s :: rest)).length := by
          rw [length_symbols_step, TableStep.newSymbols_cons s rest, List.length_append, Nat.add_assoc]

theorem length_types_run (table : SymbolTable) (steps : List TableStep) :
    (table.run steps).types.length = table.types.length + (TableStep.newForms steps).length := by
  induction steps generalizing table with
  | nil => rfl
  | cons s rest ih =>
    calc ((table.step s).run rest).types.length
        = (table.step s).types.length + (TableStep.newForms rest).length := ih (table.step s)
      _ = table.types.length + (TableStep.newForms (s :: rest)).length := by
          rw [length_types_step, TableStep.newForms_cons s rest, List.length_append, Nat.add_assoc]

/-- A symbol keeps its name, kind and package, and has the type that was given to it last. -/
theorem symbol?_run {table : SymbolTable} {id : SymbolId} {symbol : Symbol} (h : table.symbol? id = some symbol)
    (steps : List TableStep) :
    (table.run steps).symbol? id =
      some { symbol with type := (TableStep.lastTypeFor? id table.types.length steps).or symbol.type } := by
  induction steps generalizing table symbol with
  | nil => exact h
  | cons s rest ih =>
    refine (ih (symbol?_step h s)).trans ?_
    rw [TableStep.lastTypeFor?, length_types_step, Option.or_assoc]

/-- A type keeps its form; a named one has the underlying type that was set last, and the added methods behind its
    own. -/
theorem type?_run {table : SymbolTable} {id : TypeId} {form : TypeForm} (h : table.type? id = some form)
    (steps : List TableStep) :
    (table.run steps).type? id =
      some (form.completed (TableStep.lastUnderlyingFor? id steps) (TableStep.methodsFor id steps)) := by
  induction steps generalizing table form with
  | nil => exact h.trans (congrArg some form.completed_none_nil.symm)
  | cons s rest ih =>
    refine (ih (type?_step h s)).trans ?_
    rw [TypeForm.completed_completed, TableStep.lastUnderlyingFor?_cons, TableStep.methodsFor_cons]

/-! From an empty table on. -/

theorem length_symbols_ofSteps (steps : List TableStep) :
    (ofSteps steps).symbols.length = (TableStep.newSymbols steps).length :=
  (length_symbols_run {} steps).trans (Nat.zero_add _)

theorem length_types_ofSteps (steps : List TableStep) :
    (ofSteps steps).types.length = (TableStep.newForms steps).length :=
  (length_types_run {} steps).trans (Nat.zero_add _)

theorem ofSteps_append_cons (before after : List TableStep) (s : TableStep) :
    ofSteps (before ++ s :: after) = ((ofSteps before).step s).run after :=
  List.foldl_append

theorem symbol?_ofSteps (before : List TableStep) (symbol : Symbol) (after : List TableStep) :
    let id : SymbolId := ⟨(TableStep.newSymbols before).length⟩
    (ofSteps (before ++ .addSymbol symbol :: after)).symbol? id =
      some { symbol with
        type := (TableStep.lastTypeFor? id (TableStep.newForms before).length after).or symbol.type } := by
  have hself := (ofSteps before).symbol?_addSymbol_self symbol
  have htypes : ((ofSteps before).addSymbol symbol).1.types.length = (TableStep.newForms before).length :=
    length_types_ofSteps before
  rw [← length_symbols_ofSteps before, ofSteps_append_cons, ← htypes]
  exact symbol?_run hself after

theorem answer?_of_newForm? (table : SymbolTable) {s : TableStep} {form : TypeForm} (h : s.newForm? = some form) :
    table.answer? s = some ⟨table.types.length⟩ ∧ (table.step s).type? ⟨table.types.length⟩ = some form := by
  cases s with
  | addType added =>
    cases h
    exact ⟨rfl, table.type?_addType_self form⟩
  | declareType symbol =>
    cases h
    exact ⟨rfl, table.type?_addType_self (.named symbol none [])⟩
  | _ => cases h

theorem type?_ofSteps (before : List TableStep) {s : TableStep} {form : TypeForm} (h : s.newForm? = some form)
    (after : List TableStep) :
    (ofSteps (before ++ s :: after)).type? ⟨(TableStep.newForms before).length⟩ =
      some (form.completed (TableStep.lastUnderlyingFor? ⟨(TableStep.newForms before).length⟩ after)
        (TableStep.methodsFor ⟨(TableStep.newForms before).length⟩ after)) := by
  rw [ofSteps_append_cons, ← length_types_ofSteps]
  exact type?_run (answer?_of_newForm? (ofSteps before) h).2 after

/-- After any steps a table is what the steps say. It has as many symbols and types as were added, and the number
    that is answered for each counts those added before it. A symbol keeps its name, kind and package, and its type
    is the one given last, or else its first one. A type keeps its form: one that is not named never changes, and a
    named one keeps its symbol, has the underlying type set last, or else its first one, and the methods added to it
    behind its first ones, in order. A step on an unknown number, or for the underlying type or methods of a type
    that is not named, changes nothing; a type that is declared for an unknown symbol is added, and that is all. -/
theorem entries_follow_history (steps : List TableStep) :
    let table := ofSteps steps
    (table.symbols.length = (TableStep.newSymbols steps).length ∧
      table.types.length = (TableStep.newForms steps).length) ∧
    (∀ before symbol after, steps = before ++ .addSymbol symbol :: after →
      let id : SymbolId := ⟨(TableStep.newSymbols before).length⟩
      ((ofSteps before).addSymbol symbol).2 = id ∧
      table.symbol? id =
        some { symbol with
          type := (TableStep.lastTypeFor? id (TableStep.newForms before).length after).or symbol.type }) ∧
    (∀ before s form after, steps = before ++ s :: after → s.newForm? = some form →
      let id : TypeId := ⟨(TableStep.newForms before).length⟩
      (ofSteps before).answer? s = some id ∧
      table.type? id = some (form.completed (TableStep.lastUnderlyingFor? id after) (TableStep.methodsFor id after))) ∧
    (∀ s, table.Idle s → table.step s = table) ∧
    (∀ symbol, table.symbol? symbol = none →
      (table.declareType symbol).1 = (table.addType (.named symbol none [])).1) := by
  intro table
  refine ⟨⟨length_symbols_ofSteps steps, length_types_ofSteps steps⟩, ?_, ?_, fun s => step_of_idle,
    fun symbol => declareType_of_unknown⟩
  · rintro before symbol after rfl id
    exact ⟨congrArg SymbolId.mk (length_symbols_ofSteps before), symbol?_ofSteps before symbol after⟩
  · rintro before s form after rfl hform id
    have hanswer := (answer?_of_newForm? (ofSteps before) hform).1
    rw [length_types_ofSteps] at hanswer
    exact ⟨hanswer, type?_ofSteps before hform after⟩

/-- A type that embeds itself is declared after a struct was added for it; both are referred to before they are
    there, and the type gets an underlying type twice and two methods. -/
def selfReferringSteps : List TableStep :=
  [.addMethod ⟨1⟩ ⟨7⟩, .assignType ⟨0⟩ ⟨9⟩, .addType (.struct [⟨⟨1⟩, true⟩]),
    .addSymbol ⟨"T", .typeName, some "a", none⟩, .declareType ⟨0⟩, .addMethod ⟨0⟩ ⟨7⟩,
    .setUnderlying ⟨1⟩ ⟨4⟩, .addMethod ⟨1⟩ ⟨3⟩, .declareType ⟨5⟩,
    .addSymbol ⟨"T", .field, some "a", some ⟨1⟩⟩, .setUnderlying ⟨1⟩ ⟨0⟩, .addMethod ⟨1⟩ ⟨2⟩]

/-- What came too early is lost, what came on top of it stands, and the struct is as it was. -/
theorem entries_follow_selfReferringSteps :
    (ofSteps selfReferringSteps).symbol? ⟨0⟩ = some ⟨"T", .typeName, some "a", some ⟨1⟩⟩ ∧
    (ofSteps selfReferringSteps).type? ⟨0⟩ = some (.struct [⟨⟨1⟩, true⟩]) ∧
    (ofSteps selfReferringSteps).type? ⟨1⟩ = some (.named ⟨0⟩ (some ⟨0⟩) [⟨3⟩, ⟨2⟩]) ∧
    (ofSteps selfReferringSteps).step (.addMethod ⟨0⟩ ⟨1⟩) = ofSteps selfReferringSteps := by
  obtain ⟨_, hsymbols, htypes, hidle, _⟩ := entries_follow_history selfReferringSteps
  refine ⟨?_, ?_, ?_, ?_⟩
  · exact (hsymbols (selfReferringSteps.take 3) _ (selfReferringSteps.drop 4) rfl).2
  · exact (htypes (selfReferringSteps.take 2) _ _ (selfReferringSteps.drop 3) rfl rfl).2
  · exact (htypes (selfReferringSteps.take 4) _ _ (selfReferringSteps.drop 5) rfl rfl).2
  · apply hidle
    intro form hform
    cases hform
    rfl

end SymbolTable

end ProgramIndex
