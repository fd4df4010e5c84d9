import ProgramIndex.Program.Names
import ProgramIndex.Proofs.IndexCoverage

/- What names mean in a loaded program. A qualified name is divided at its last dot, so it stands for one
   path and one name without a dot (`QualifiedName.join_inj`), and looking it up finds what the package that
   is indexed under the path declares (`Program.Declares`, `lookup?_join_eq_some_iff`); a name without a dot is
   one of the universe. `lookup?_inverts_join` says this of every spelling, and what follows for a look-up
   that must succeed and for the use of the name in the package itself. Within a package a name is
   looked for in the packages that the table of imports names; if these have the paths that the table gives
   and no path is shadowed, the qualified names find the same (`resolve_agrees_with_lookup?`). -/
namespace ProgramIndex

/-! Spellings. -/

theorem QualifiedName.join_inj {path name path' name' : String} (hname : '.' ∉ name.toList)
    (hname' : '.' ∉ name'.toList) (h : join path name = join path' name') : path = path' ∧ name = name' := by
  have hsplit : split? (join path name) = some (path, name) := (split?_eq_some_iff _ _ _).mpr ⟨rfl, hname⟩
  have hsplit' : split? (join path name) = some (path', name') := (split?_eq_some_iff _ _ _).mpr ⟨h, hname'⟩
  exact Prod.mk.inj (Option.some.inj (hsplit.symm.trans hsplit'))

theorem QualifiedName.dot_mem_join (path name : String) : '.' ∈ (join path name).toList := by
  simp [join]

theorem QualifiedName.exists_eq_join {qualified : String} (h : '.' ∈ qualified.toList) :
    ∃ path name, qualified = join path name ∧ '.' ∉ name.toList := by
  cases hsplit : split? qualified with
  | none => exact absurd h ((split?_eq_none_iff qualified).mp hsplit)
  | some parts => exact ⟨parts.1, parts.2, (split?_eq_some_iff _ _ _).mp hsplit⟩

/-! How many candidates an answer has. -/

namespace Resolution

theorem ofCandidates_eq_notFound_iff : ∀ symbols : List SymbolId,
    ofCandidates symbols = .notFound ↔ symbols.length = 0
  | [] => by simp [ofCandidates]
  | [_] => by simp [ofCandidates]
  | _ :: _ :: _ => by simp [ofCandidates]

theorem exists_ofCandidates_eq_found_iff : ∀ symbols : List SymbolId,
    (∃ symbol, ofCandidates symbols = .found symbol) ↔ symbols.length = 1
  | [] => by simp [ofCandidates]
  | [_] => by simp [ofCandidates]
  | _ :: _ :: _ => by simp [ofCandidates]

theorem exists_ofCandidates_eq_ambiguous_iff : ∀ symbols : List SymbolId,
    (∃ several, ofCandidates symbols = .ambiguous several) ↔ 2 ≤ symbols.length
  | [] => by simp [ofCandidates]
  | [_] => by simp [ofCandidates]
  | _ :: _ :: _ => by simp [ofCandidates]

end Resolution

namespace Program
variable {program : Program}

/-! Qualified names. -/

/-- The package that is indexed under a path binds a name to a symbol. -/
def Declares (program : Program) (path name : String) (symbol : SymbolId) : Prop :=
  ∃ package, program.index.get? path = some package.id ∧ program.package? package.id = some package ∧
    package.path = path ∧ (name, symbol) ∈ package.scope.toList

theorem lookup?_join {name : String} (hname : '.' ∉ name.toList) (path : String) :
    program.lookup? (QualifiedName.join path name) = (program.packageAt? path).bind (·.scope.find? name) := by
  rw [lookup?, (QualifiedName.split?_eq_some_iff _ _ _).mpr ⟨rfl, hname⟩]

theorem lookup?_of_no_dot {name : String} (hname : '.' ∉ name.toList) :
    program.lookup? name = program.universeScope.find? name := by
  rw [lookup?, (QualifiedName.split?_eq_none_iff name).mpr hname]

theorem packageAt?_eq_some_iff (hprogram : program.Consistent) (path : String) (package : Package) :
    program.packageAt? path = some package ↔ program.index.get? path = some package.id ∧
      program.package? package.id = some package ∧ package.path = path := by
  rw [packageAt?, Option.bind_eq_some_iff]
  refine ⟨fun h => ?_, fun h => ⟨package.id, h.1, h.2.1⟩⟩
  obtain ⟨id, hindex, hpackage⟩ := h
  obtain ⟨found, hfound, hpath⟩ := hprogram.index_package hindex
  rw [hpackage] at hfound
  obtain rfl := Option.some.inj hfound
  obtain rfl := hprogram.id_eq hpackage
  exact ⟨hindex, hpackage, hpath⟩

theorem declares_iff_find? (hprogram : program.Consistent) (path name : String) (symbol : SymbolId) :
    program.Declares path name symbol ↔ (program.packageAt? path).bind (·.scope.find? name) = some symbol := by
  rw [Option.bind_eq_some_iff]
  refine exists_congr fun package => ?_
  rw [packageAt?_eq_some_iff hprogram, and_assoc, and_assoc]
  exact and_congr_right fun _ => and_congr_right fun _ => and_congr_right fun _ =>
    (package.scope.bindings.get?_eq_some_iff name symbol).symm

/-- A qualified name means what the package under its path declares. -/
theorem lookup?_join_eq_some_iff (hprogram : program.Consistent) {name : String} (hname : '.' ∉ name.toList)
    (path : String) (symbol : SymbolId) :
    program.lookup? (QualifiedName.join path name) = some symbol ↔ program.Declares path name symbol := by
  rw [lookup?_join hname, declares_iff_find? hprogram]

theorem lookup?_eq_some_iff (hprogram : program.Consistent) (qualified : String) (symbol : SymbolId) :
    program.lookup? qualified = some symbol ↔
      ('.' ∉ qualified.toList ∧ program.universeScope.find? qualified = some symbol) ∨
      ∃ path name, qualified = QualifiedName.join path name ∧ '.' ∉ name.toList ∧
        program.Declares path name symbol := by
  by_cases hdot : '.' ∈ qualified.toList
  · obtain ⟨path, name, rfl, hname⟩ := QualifiedName.exists_eq_join hdot
    rw [lookup?_join_eq_some_iff hprogram hname]
    refine ⟨fun h => Or.inr ⟨path, name, rfl, hname, h⟩, fun h => ?_⟩
    rcases h with ⟨hnodot, _⟩ | ⟨path', name', heq, hname', hdeclares⟩
    · exact absurd hdot hnodot
    · obtain ⟨rfl, rfl⟩ := QualifiedName.join_inj hname hname' heq
      exact hdeclares
  · rw [lookup?_of_no_dot hdot]
    refine ⟨fun h => Or.inl ⟨hdot, h⟩, fun h => ?_⟩
    rcases h with ⟨_, h⟩ | ⟨path, name, rfl, _⟩
    · exact h
    · exact absurd (QualifiedName.dot_mem_join path name) hdot

theorem requireSymbol_eq_ok_iff (qualified : String) (symbol : SymbolId) :
    program.requireSymbol qualified = .ok symbol ↔ program.lookup? qualified = some symbol := by
  rw [requireSymbol]
  cases program.lookup? qualified <;> simp

theorem resolve_of_find? {package : Package} {name : String} {symbol : SymbolId}
    (h : package.scope.find? name = some symbol) : program.resolve package name = .found symbol := by
  rw [resolve, h]

/-- Looking up undoes the joining of a path and a name without a dot: it finds a symbol exactly if the path is
    indexed and the package under it binds the name to the symbol. A name without a dot is looked up in the
    universe, and no two meanings share a spelling. A look-up that must succeed finds the same, and within the
    package itself the name means the same. -/
theorem lookup?_inverts_join {host : Host} {directory : String} {options : LoadOptions} {frontEnd : FrontEnd}
    {program : Program} (h : (load host directory options frontEnd).outcome = .ok program) :
    (∀ path name symbol, '.' ∉ name.toList →
      (program.lookup? (QualifiedName.join path name) = some symbol ↔ program.Declares path name symbol)) ∧
    (∀ name, '.' ∉ name.toList → program.lookup? name = program.universeScope.find? name) ∧
    (∀ path name path' name', '.' ∉ name.toList → '.' ∉ name'.toList →
      QualifiedName.join path name = QualifiedName.join path' name' → path = path' ∧ name = name') ∧
    (∀ path name other, '.' ∉ other.toList → QualifiedName.join path name ≠ other) ∧
    (∀ qualified symbol, program.requireSymbol qualified = .ok symbol ↔
      ('.' ∉ qualified.toList ∧ program.universeScope.find? qualified = some symbol) ∨
      ∃ path name, qualified = QualifiedName.join path name ∧ '.' ∉ name.toList ∧
        program.Declares path name symbol) ∧
    (∀ path name symbol package, '.' ∉ name.toList → program.packageAt? path = some package →
      program.lookup? (QualifiedName.join path name) = some symbol →
      program.resolve package name = .found symbol) := by
  have hprogram := consistent_of_load h
  refine ⟨fun path name symbol hname => lookup?_join_eq_some_iff hprogram hname path symbol,
    fun name hname => lookup?_of_no_dot hname, fun path name path' name' => QualifiedName.join_inj, ?_, ?_, ?_⟩
  · intro path name other hother heq
    exact hother (heq ▸ QualifiedName.dot_mem_join path name)
  · intro qualified symbol
    rw [requireSymbol_eq_ok_iff, lookup?_eq_some_iff hprogram]
  · intro path name symbol package hname hpackage hlookup
    rw [lookup?_join hname, hpackage, Option.bind_some] at hlookup
    exact resolve_of_find? hlookup

/-- A package that declares two names under a path with a dot. -/
def dottedPackage : Package where
  id := ⟨1⟩
  key := "x.y"
  path := "x.y"
  name := "y"
  scope := .ofList [("z", ⟨1⟩), ("w", ⟨2⟩)]

/-- A package that imports that one, and one whose path is the part before the dot. -/
def appPackage : Package where
  id := ⟨0⟩
  key := "app"
  path := "app"
  name := "app"
  imports := .ofList [("x.y", ⟨1⟩), ("x", ⟨2⟩)]
  scope := .ofList [("main", ⟨0⟩)]

/-- Both imported packages declare a name that the universe has too. -/
def dottedFindings : Findings where
  packages :=
    [appPackage, dottedPackage,
     { key := "x", path := "x", name := "x", scope := .ofList [("z", ⟨3⟩), ("y.z", ⟨4⟩)] }]
  roots := [⟨0⟩]
  universeScope := .ofList [("z", ⟨5⟩)]

def dottedProgram : Program := ofFindings { dependencies := true } "/" dottedFindings

theorem load_dottedFindings :
    (load {} "/" { dependencies := true } fun _ => .ok dottedFindings).outcome = .ok dottedProgram := rfl

theorem lookup?_inverts_join_dottedProgram :
    dottedProgram.Declares "x.y" "z" ⟨1⟩ ∧
    dottedProgram.lookup? (QualifiedName.join "x.y" "z") = some ⟨1⟩ ∧
    dottedProgram.lookup? "z" = some ⟨5⟩ ∧
    dottedProgram.requireSymbol (QualifiedName.join "x.y" "z") = .ok ⟨1⟩ := by
  have hdot : '.' ∉ "z".toList := by decide
  have hdeclares : dottedProgram.Declares "x.y" "z" ⟨1⟩ := by
    refine ⟨dottedPackage, ?_, rfl, rfl, by decide⟩
    cbv
  obtain ⟨hjoin, huniverse, _, _, hrequire, _⟩ := lookup?_inverts_join load_dottedFindings
  refine ⟨hdeclares, (hjoin _ _ _ hdot).mpr hdeclares, ?_, ?_⟩
  · rw [huniverse "z" hdot]
    rfl
  · exact (hrequire _ _).mpr (Or.inr ⟨"x.y", "z", rfl, hdot, hdeclares⟩)

/-! Names within a package. -/

/-- What the qualified names of a package's imports find, in the order of the table of imports. -/
def importedSymbols (program : Program) (package : Package) (name : String) : List SymbolId :=
  package.imports.keys.filterMap fun path => program.lookup? (QualifiedName.join path name)

theorem packageAt?_of_mem_reached (hloaded : program.Loaded)
    (hpaths : (program.reachedPackages.map (·.path)).Nodup) {id : PackageId} (hreached : id ∈ program.reached)
    {path : String} (hpath : pathAt? program.packages id = some path) :
    program.packageAt? path = program.package? id := by
  rw [packageAt?, (get?_index_iff hloaded hpaths path id).mpr ⟨hreached, hpath⟩, Option.bind_some]

/-- The candidates from the imported packages are what the qualified names of the imports find. -/
theorem candidates_eq_importedSymbols (hloaded : program.Loaded)
    (hdependencies : program.options.dependencies = true)
    (hpaths : (program.reachedPackages.map (·.path)).Nodup) {package : Package}
    (hreached : package ∈ program.reachedPackages)
    (himports : ∀ e ∈ package.imports.entries, pathAt? program.packages e.2 = some e.1) {name : String}
    (hname : '.' ∉ name.toList) :
    (package.imports.values.filterMap program.package?).filterMap (·.scope.find? name) =
      program.importedSymbols package name := by
  obtain ⟨id, hid, hpackage⟩ := List.mem_filterMap.mp hreached
  rw [importedSymbols, OrderedMap.values, OrderedMap.keys, List.filterMap_map, List.filterMap_filterMap,
    List.filterMap_map]
  apply List.filterMap_congr
  intro e he
  have himported : Imports program.packages id e.2 := ⟨package, hpackage, List.mem_map_of_mem he⟩
  have htarget := mem_reached_of_imports hloaded hdependencies hid himported
  rw [Function.comp_apply, Function.comp_apply, lookup?_join hname,
    packageAt?_of_mem_reached hloaded hpaths htarget (himports e he)]

/-- Let imports be loaded, no path be shadowed, and the imports of a reached package lead to packages with
    the paths that its table gives. Within the package a name means what its qualified name in the package finds;
    if that finds nothing, it means what its qualified names in the imported packages find, in the order of the
    table, and the answer is that there is none, that there is one, or that there are several. -/
theorem resolve_agrees_with_lookup? {host : Host} {directory : String} {options : LoadOptions} {frontEnd : FrontEnd}
    {program : Program} (h : (load host directory options frontEnd).outcome = .ok program)
    (hdependencies : options.dependencies = true) (hpaths : (program.reachedPackages.map (·.path)).Nodup)
    {package : Package} (hreached : package ∈ program.reachedPackages)
    (himports : ∀ e ∈ package.imports.entries, pathAt? program.packages e.2 = some e.1) {name : String}
    (hname : '.' ∉ name.toList) :
    (∀ symbol, program.lookup? (QualifiedName.join package.path name) = some symbol →
      program.resolve package name = .found symbol) ∧
    (program.lookup? (QualifiedName.join package.path name) = none →
      (program.resolve package name).candidates = program.importedSymbols package name ∧
      (program.resolve package name = .notFound ↔ (program.importedSymbols package name).length = 0) ∧
      ((∃ symbol, program.resolve package name = .found symbol) ↔
        (program.importedSymbols package name).length = 1) ∧
      ((∃ several, program.resolve package name = .ambiguous several) ↔
        2 ≤ (program.importedSymbols package name).length)) := by
  have hloaded := loaded_of_load h
  rw [← options_of_load h] at hdependencies
  obtain ⟨id, hid, hpackage⟩ := List.mem_filterMap.mp hreached
  have hown : program.lookup? (QualifiedName.join package.path name) = package.scope.find? name := by
    have hpath : pathAt? program.packages id = some package.path := Option.map_eq_some_iff.mpr ⟨_, hpackage, rfl⟩
    rw [lookup?_join hname, packageAt?_of_mem_reached hloaded hpaths hid hpath, hpackage, Option.bind_some]
  rw [hown]
  refine ⟨fun symbol => resolve_of_find?, fun hnone => ?_⟩
  have hresolve : program.resolve package name = .ofCandidates (program.importedSymbols package name) := by
    rw [resolve, hnone]
    dsimp only
    rw [candidates_eq_importedSymbols hloaded hdependencies hpaths hreached himports hname]
  rw [hresolve]
  exact ⟨Resolution.candidates_ofCandidates _, Resolution.ofCandidates_eq_notFound_iff _,
    Resolution.exists_ofCandidates_eq_found_iff _, Resolution.exists_ofCandidates_eq_ambiguous_iff _⟩

theorem resolve_agrees_with_lookup?_dottedProgram :
    dottedProgram.importedSymbols appPackage "z" = [⟨1⟩, ⟨3⟩] ∧
    (dottedProgram.resolve appPackage "z").candidates = [⟨1⟩, ⟨3⟩] ∧
    (∃ several, dottedProgram.resolve appPackage "z" = .ambiguous several) ∧
    ∃ symbol, dottedProgram.resolve appPackage "w" = .found symbol := by
  have hreached : dottedProgram.reachedPackages =
      [{ key := "x", path := "x", name := "x", id := ⟨2⟩, scope := .ofList [("z", ⟨3⟩), ("y.z", ⟨4⟩)] },
       dottedPackage, appPackage] := by
    have hids : dottedProgram.reached = [⟨2⟩, ⟨1⟩, ⟨0⟩] := by cbv
    rw [reachedPackages, hids]
    rfl
  have hpaths : (dottedProgram.reachedPackages.map (·.path)).Nodup := by
    rw [hreached]
    decide
  have happ : appPackage ∈ dottedProgram.reachedPackages := by simp [hreached]
  have himports : ∀ e ∈ appPackage.imports.entries, pathAt? dottedProgram.packages e.2 = some e.1 := by decide
  have htwo : dottedProgram.importedSymbols appPackage "z" = [⟨1⟩, ⟨3⟩] := by cbv
  have hone : (dottedProgram.importedSymbols appPackage "w").length = 1 := by cbv
  obtain ⟨_, hz⟩ := resolve_agrees_with_lookup? load_dottedFindings rfl hpaths happ himports
    (by decide : '.' ∉ "z".toList)
  obtain ⟨_, hw⟩ := resolve_agrees_with_lookup? load_dottedFindings rfl hpaths happ himports
    (by decide : '.' ∉ "w".toList)
  obtain ⟨hcandidates, _, _, hambiguous⟩ := hz (by cbv)
  obtain ⟨_, _, hfound, _⟩ := hw (by cbv)
  exact ⟨htwo, hcandidates.trans htwo, hambiguous.mpr (by rw [htwo]; decide), hfound.mpr hone⟩

end Program

end ProgramIndex
