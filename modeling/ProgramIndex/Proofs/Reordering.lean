import ProgramIndex.Proofs.IndexCoverage

/- What does not depend on the order of the input. Findings may list their roots in another order or
   repeat them, and list the imports of a file or of a package in another order (`Findings.Reordered`).
   If paths and file names tell reached packages and files apart (`DistinctNames`) and the filters look at
   names only (`FiltersByName`), the two programs have the same index and note the same generators
   (`Alike`), so a traversal comes to the same packages in both (`Alike.reachable_iff`).
   `load_ignores_order` says that both loads reach and visit the same packages and list the same uses,
   if perhaps in another order. -/
namespace ProgramIndex

/-! Input in another order. -/

/-- Two files that differ only in the order of their imports. -/
structure SourceFile.Reordered (first second : SourceFile) : Prop where
  file : first.file = second.file
  name : first.name = second.name
  packageOffset : first.tree.packageOffset = second.tree.packageOffset
  comments : first.tree.comments = second.tree.comments
  imports : first.tree.imports.Perm second.tree.imports
  idents : first.tree.idents = second.tree.idents

/-- Two packages that differ only in the order of their imports and of those of their files. What number
    they bear is left open, since a load sets it. -/
structure Package.Reordered (first second : Package) : Prop where
  key : first.key = second.key
  path : first.path = second.path
  name : first.name = second.name
  files : List.Forall₂ SourceFile.Reordered first.files second.files
  imports : first.imports.entries.Perm second.imports.entries
  scope : first.scope = second.scope
  definitions : first.definitions = second.definitions
  uses : first.uses = second.uses
  diagnostics : first.diagnostics = second.diagnostics

/-- Two findings that differ only in the order and repetition of roots and in the order of imports. -/
structure Findings.Reordered (first second : Findings) : Prop where
  packages : List.Forall₂ Package.Reordered first.packages second.packages
  roots : ∀ id, id ∈ first.roots ↔ id ∈ second.roots
  symbols : first.symbols = second.symbols
  universeScope : first.universeScope = second.universeScope
  files : first.files = second.files

/-- The filters look at no more than the path, name and key of a package and the name and generator of
    a file. -/
structure LoadOptions.FiltersByName (options : LoadOptions) : Prop where
  package : ∀ filter ∈ options.packageFilters, ∀ first second : Package, first.path = second.path →
    first.name = second.name → first.key = second.key → filter first = filter second
  file : ∀ filter ∈ options.fileFilters, ∀ first second : SourceUnit, first.package.path = second.package.path →
    first.package.name = second.package.name → first.package.key = second.package.key →
    first.file.name = second.file.name → first.generatedBy = second.generatedBy → filter first = filter second

theorem SourceFile.Reordered.refl (file : SourceFile) : file.Reordered file :=
  ⟨rfl, rfl, rfl, rfl, List.Perm.refl _, rfl⟩

theorem SourceFile.Reordered.symm {first second : SourceFile} (h : first.Reordered second) : second.Reordered first :=
  ⟨h.file.symm, h.name.symm, h.packageOffset.symm, h.comments.symm, h.imports.symm, h.idents.symm⟩

theorem SourceFile.Reordered.generator?_eq {first second : SourceFile} (h : first.Reordered second) :
    first.tree.generator? = second.tree.generator? := by
  rw [SyntaxTree.generator?, SyntaxTree.generator?, SyntaxTree.leadingComments, SyntaxTree.leadingComments,
    h.packageOffset, h.comments]

theorem exists_getElem?_of_forall₂ {α : Type} {R : α → α → Prop} {l l' : List α} (h : List.Forall₂ R l l')
    {i : Nat} {a : α} (ha : l[i]? = some a) : ∃ b, l'[i]? = some b ∧ R a b := by
  obtain ⟨hi, rfl⟩ := List.getElem?_eq_some_iff.mp ha
  have hi' : i < l'.length := h.length_eq ▸ hi
  exact ⟨l'[i], List.getElem?_eq_getElem hi', h.get hi hi'⟩

theorem Package.Reordered.refl (package : Package) : package.Reordered package :=
  ⟨rfl, rfl, rfl, List.forall₂_same.mpr fun file _ => .refl file, List.Perm.refl _, rfl, rfl, rfl, rfl⟩

theorem Package.Reordered.symm {first second : Package} (h : first.Reordered second) : second.Reordered first where
  key := h.key.symm
  path := h.path.symm
  name := h.name.symm
  files := (h.files.imp fun _ _ => SourceFile.Reordered.symm).flip
  imports := h.imports.symm
  scope := h.scope.symm
  definitions := h.definitions.symm
  uses := h.uses.symm
  diagnostics := h.diagnostics.symm

theorem Package.Reordered.map_files_name {first second : Package} (h : first.Reordered second) :
    first.files.map (·.name) = second.files.map (·.name) := by
  have hnames : List.Forall₂ Eq (first.files.map (·.name)) (second.files.map (·.name)) := by
    rw [List.forall₂_map_left_iff, List.forall₂_map_right_iff]
    exact h.files.imp fun _ _ => SourceFile.Reordered.name
  rwa [List.forall₂_eq_eq_eq] at hnames

theorem Package.Reordered.exists_file {first second : Package} (h : first.Reordered second) {file : SourceFile}
    (hfile : file ∈ first.files) : ∃ other ∈ second.files, file.Reordered other := by
  obtain ⟨place, hplace⟩ := List.mem_iff_getElem?.mp hfile
  obtain ⟨other, hother, hreordered⟩ := exists_getElem?_of_forall₂ h.files hplace
  exact ⟨other, List.mem_of_getElem? hother, hreordered⟩

theorem Findings.Reordered.fault?_eq_none {first second : Findings} (h : first.Reordered second)
    (hfault : first.fault? = none) : second.fault? = none := by
  obtain ⟨hroots, himports⟩ := (Findings.fault?_eq_none_iff first).mp hfault
  refine (Findings.fault?_eq_none_iff second).mpr ⟨fun root hroot => ?_, fun package hpackage e he => ?_⟩
  · rw [← h.packages.length_eq]
    exact hroots root ((h.roots root).mpr hroot)
  · obtain ⟨number, hnumber⟩ := List.mem_iff_getElem?.mp hpackage
    have hback : List.Forall₂ Package.Reordered second.packages first.packages :=
      (h.packages.imp fun _ _ => Package.Reordered.symm).flip
    obtain ⟨other, hother, hreordered⟩ := exists_getElem?_of_forall₂ hback hnumber
    rw [← h.packages.length_eq]
    exact himports other (List.mem_of_getElem? hother) e (hreordered.imports.subset he)

namespace Program

/-! Programs made of reordered input. -/

/-- Two programs with the same options whose packages and roots differ only in order. -/
structure Reordered (first second : Program) : Prop where
  options_eq : first.options = second.options
  packages : List.Forall₂ Package.Reordered first.packages second.packages
  roots : ∀ id, id ∈ first.roots ↔ id ∈ second.roots

theorem reordered_ofFindings (options : LoadOptions) (directory : String) {first second : Findings}
    (h : first.Reordered second) :
    (ofFindings options directory first).Reordered (ofFindings options directory second) := by
  refine ⟨rfl, ?_, h.roots⟩
  show List.Forall₂ Package.Reordered (numbered first.packages) (numbered second.packages)
  apply List.forall₂_iff_get.mpr
  refine ⟨by rw [length_numbered, length_numbered, h.packages.length_eq], fun i hi hi' => ?_⟩
  have hlt : i < first.packages.length := length_numbered first.packages ▸ hi
  have hlt' : i < second.packages.length := length_numbered second.packages ▸ hi'
  have hpair := h.packages.get hlt hlt'
  simp only [numbered, List.get_eq_getElem, List.getElem_map, List.getElem_zipIdx] at hpair ⊢
  -- numbering leaves all else as it is
  exact ⟨hpair.key, hpair.path, hpair.name, hpair.files, hpair.imports, hpair.scope, hpair.definitions, hpair.uses,
    hpair.diagnostics⟩

variable {first second : Program}

theorem Reordered.symm (h : first.Reordered second) : second.Reordered first :=
  ⟨h.options_eq.symm, (h.packages.imp fun _ _ => Package.Reordered.symm).flip, fun id => (h.roots id).symm⟩

theorem Reordered.exists_package (h : first.Reordered second) {id : PackageId} {package : Package}
    (hpackage : first.package? id = some package) :
    ∃ other, second.package? id = some other ∧ package.Reordered other :=
  exists_getElem?_of_forall₂ h.packages hpackage

theorem Reordered.map_package?_eq {β : Type} (h : first.Reordered second) {f : Package → β}
    (hf : ∀ {package other : Package}, package.Reordered other → f package = f other) (id : PackageId) :
    (first.package? id).map f = (second.package? id).map f := by
  cases hpackage : first.package? id with
  | some package =>
    obtain ⟨other, hother, hreordered⟩ := h.exists_package hpackage
    rw [hother, Option.map_some, Option.map_some, hf hreordered]
  | none =>
    cases hother : second.package? id with
    | none => rfl
    | some other =>
      obtain ⟨package, hfound, _⟩ := h.symm.exists_package hother
      rw [hpackage] at hfound
      cases hfound

theorem Reordered.perm_map_packages {β : Type} (h : first.Reordered second) {f : Package → β}
    (hf : ∀ {package other : Package}, package.Reordered other → f package = f other) {ids others : List PackageId}
    (hids : ids.Perm others) :
    ((ids.filterMap first.package?).map f).Perm ((others.filterMap second.package?).map f) := by
  rw [List.map_filterMap, List.map_filterMap, funext (h.map_package?_eq hf)]
  exact hids.filterMap _

/-! What is reached and indexed. -/

theorem Reordered.imports (h : first.Reordered second) {source target : PackageId}
    (himports : Imports first.packages source target) : Imports second.packages source target := by
  obtain ⟨package, hpackage, htarget⟩ := himports
  obtain ⟨other, hother, hreordered⟩ := h.exists_package hpackage
  exact ⟨other, hother, (hreordered.imports.map Prod.snd).subset htarget⟩

theorem Reordered.loads_eq (h : first.Reordered second) :
    Loads first.packages first.options.dependencies = Loads second.packages second.options.dependencies := by
  funext source target
  rw [Loads, Loads, h.options_eq]
  exact propext (and_congr_right fun _ => ⟨h.imports, h.symm.imports⟩)

theorem Reordered.mem_reached_iff (h : first.Reordered second) (hfirst : first.Loaded) (hsecond : second.Loaded)
    (id : PackageId) : id ∈ first.reached ↔ id ∈ second.reached := by
  rw [mem_reached hfirst, mem_reached hsecond, h.loads_eq]
  exact exists_congr fun root => and_congr_left fun _ => h.roots root

theorem Reordered.perm_reached (h : first.Reordered second) (hfirst : first.Loaded) (hsecond : second.Loaded) :
    first.reached.Perm second.reached := by
  refine (List.perm_ext_iff_of_nodup ?_ ?_).mpr (h.mem_reached_iff hfirst hsecond)
  · rw [hfirst.reached_eq]
    exact nodup_gather _ _ _
  · rw [hsecond.reached_eq]
    exact nodup_gather _ _ _

/-- Paths tell the reached packages apart, and names the reached files. -/
structure DistinctNames (program : Program) : Prop where
  paths : (program.reachedPackages.map (·.path)).Nodup
  fileNames : ((program.reachedPackages.flatMap (·.files)).map (·.name)).Nodup

theorem DistinctNames.of_reordered (hdistinct : first.DistinctNames) (h : first.Reordered second)
    (hfirst : first.Loaded) (hsecond : second.Loaded) : second.DistinctNames := by
  have hreached := h.perm_reached hfirst hsecond
  refine ⟨(h.perm_map_packages Package.Reordered.path hreached).nodup_iff.mp hdistinct.paths, ?_⟩
  have hnames := (h.perm_map_packages Package.Reordered.map_files_name hreached).flatten
  have hfiles := hdistinct.fileNames
  rw [List.map_flatMap, List.flatMap_def] at hfiles ⊢
  exact hnames.nodup_iff.mp hfiles

theorem Reordered.get?_index_eq (h : first.Reordered second) (hfirst : first.Loaded) (hsecond : second.Loaded)
    (hdistinct : first.DistinctNames) (path : String) : first.index.get? path = second.index.get? path := by
  have hdistinct' := hdistinct.of_reordered h hfirst hsecond
  apply Option.ext
  intro id
  rw [get?_index_iff hfirst hdistinct.paths, get?_index_iff hsecond hdistinct'.paths, h.mem_reached_iff hfirst hsecond]
  have hpath : pathAt? first.packages id = pathAt? second.packages id := h.map_package?_eq Package.Reordered.path id
  rw [hpath]

/-! Which generators are noted. -/

theorem Reordered.exists_reached_file (h : first.Reordered second) (hfirst : first.Loaded) (hsecond : second.Loaded)
    {file : SourceFile} (hfile : file ∈ first.reachedPackages.flatMap (·.files)) :
    ∃ other ∈ second.reachedPackages.flatMap (·.files), file.Reordered other := by
  obtain ⟨package, hreached, hfile⟩ := List.mem_flatMap.mp hfile
  obtain ⟨id, hid, hpackage⟩ := List.mem_filterMap.mp hreached
  obtain ⟨otherPackage, hotherPackage, hpackages⟩ := h.exists_package hpackage
  obtain ⟨other, hother, hfiles⟩ := hpackages.exists_file hfile
  have hreached' : otherPackage ∈ second.reachedPackages :=
    List.mem_filterMap.mpr ⟨id, (h.mem_reached_iff hfirst hsecond id).mp hid, hotherPackage⟩
  exact ⟨other, List.mem_flatMap.mpr ⟨otherPackage, hreached', hother⟩, hfiles⟩

theorem get?_markers_iff {program : Program} (hloaded : program.Loaded) (hdistinct : program.DistinctNames)
    (name : String) (generator : Option String) :
    program.markers.get? name = some generator ↔
      ∃ file ∈ program.reachedPackages.flatMap (·.files), file.name = name ∧ file.tree.generator? = generator := by
  rw [hloaded.markers_eq]
  exact OrderedMap.get?_foldl_insertIfNew_iff _ _ hdistinct.fileNames name generator

theorem Reordered.get?_markers (h : first.Reordered second) (hfirst : first.Loaded) (hsecond : second.Loaded)
    (hdistinct : first.DistinctNames) {name : String} {generator : Option String}
    (hget : first.markers.get? name = some generator) : second.markers.get? name = some generator := by
  obtain ⟨file, hfile, rfl, rfl⟩ := (get?_markers_iff hfirst hdistinct name generator).mp hget
  obtain ⟨other, hother, hreordered⟩ := h.exists_reached_file hfirst hsecond hfile
  refine (get?_markers_iff hsecond (hdistinct.of_reordered h hfirst hsecond) _ _).mpr ⟨other, hother, ?_, ?_⟩
  · exact hreordered.name.symm
  · exact hreordered.generator?_eq.symm

/-- Two such programs in which paths stand for the same packages and file names for the same generators. -/
structure Alike (first second : Program) : Prop extends Reordered first second where
  index_eq : ∀ path, first.index.get? path = second.index.get? path
  generatedBy_eq : ∀ name, first.generatedBy? name = second.generatedBy? name

theorem Reordered.alike (h : first.Reordered second) (hfirst : first.Loaded) (hsecond : second.Loaded)
    (hdistinct : first.DistinctNames) : first.Alike second := by
  refine ⟨h, h.get?_index_eq hfirst hsecond hdistinct, fun name => ?_⟩
  have hmarkers : first.markers.get? name = second.markers.get? name := by
    apply Option.ext
    intro generator
    exact ⟨h.get?_markers hfirst hsecond hdistinct,
      h.symm.get?_markers hsecond hfirst (hdistinct.of_reordered h hfirst hsecond)⟩
  rw [generatedBy?, generatedBy?, hmarkers]

theorem Alike.symm (h : first.Alike second) : second.Alike first :=
  ⟨h.toReordered.symm, fun path => (h.index_eq path).symm, fun name => (h.generatedBy_eq name).symm⟩

/-! What a traversal follows. -/

theorem accept_eq {α : Type} {filters : List (α → Bool)} {a b : α} (h : ∀ filter ∈ filters, filter a = filter b) :
    Filters.accept filters a = Filters.accept filters b := by
  rw [Filters.accept, Filters.accept, Bool.eq_iff_iff, List.all_eq_true, List.all_eq_true]
  exact forall₂_congr fun filter hfilter => by rw [h filter hfilter]

theorem acceptsPackage_eq {options : LoadOptions} (hfilters : options.FiltersByName) {package other : Package}
    (h : package.Reordered other) : options.acceptsPackage package = options.acceptsPackage other :=
  accept_eq fun filter hfilter => hfilters.package filter hfilter package other h.path h.name h.key

theorem acceptsFile_eq {options : LoadOptions} (hfilters : options.FiltersByName) {unit other : SourceUnit}
    (hpackages : unit.package.Reordered other.package) (hfiles : unit.file.Reordered other.file)
    (hgenerated : unit.generatedBy = other.generatedBy) : options.acceptsFile unit = options.acceptsFile other := by
  have haccept : Filters.accept options.fileFilters unit = Filters.accept options.fileFilters other :=
    accept_eq fun filter hfilter => hfilters.file filter hfilter unit other hpackages.path hpackages.name
      hpackages.key hfiles.name hgenerated
  rw [LoadOptions.acceptsFile, LoadOptions.acceptsFile, hgenerated, haccept]

theorem Alike.exists_unit (h : first.Alike second) (hfilters : first.options.FiltersByName) {package other : Package}
    (hpackages : package.Reordered other) {unit : SourceUnit} (hunit : unit ∈ first.unitsOf package) :
    ∃ counterpart ∈ second.unitsOf other, unit.file.Reordered counterpart.file ∧
      first.options.acceptsFile unit = second.options.acceptsFile counterpart := by
  obtain ⟨⟨file, place⟩, hfile, rfl⟩ := List.mem_map.mp hunit
  obtain ⟨otherFile, hother, hfiles⟩ :=
    exists_getElem?_of_forall₂ hpackages.files (List.mk_mem_zipIdx_iff_getElem?.mp hfile)
  have hgenerated : first.generatedBy? file.name = second.generatedBy? otherFile.name := by
    rw [h.generatedBy_eq, hfiles.name]
  refine ⟨_, List.mem_map.mpr ⟨(otherFile, place), List.mk_mem_zipIdx_iff_getElem?.mpr hother, rfl⟩, hfiles, ?_⟩
  rw [← h.options_eq]
  exact acceptsFile_eq hfilters hpackages hfiles (congrArg (Option.getD · "") hgenerated)

theorem Alike.follows (h : first.Alike second) (hfilters : first.options.FiltersByName) (descend : String → Bool)
    {source target : PackageId} (hfollows : first.Follows (fun package => descend package.path) source target) :
    second.Follows (fun package => descend package.path) source target := by
  obtain ⟨package, hpackage, hdescend, unit, hunit, haccepts, i, hi, path, hpath, hindex⟩ := hfollows
  obtain ⟨other, hother, hpackages⟩ := h.exists_package hpackage
  obtain ⟨counterpart, hcounterpart, hfiles, hsame⟩ := h.exists_unit hfilters hpackages hunit
  refine ⟨other, hother, ?_, counterpart, hcounterpart, ?_, i, hfiles.imports.subset hi, path, hpath, ?_⟩
  · exact (congrArg descend hpackages.path).symm.trans hdescend
  · exact hsame.symm.trans haccepts
  · exact (h.index_eq path).symm.trans hindex

theorem Alike.exists_acceptedRoot (h : first.Alike second) (hfilters : first.options.FiltersByName)
    (hfirst : first.Consistent) (hsecond : second.Consistent) {root : Package} (hroot : root ∈ first.acceptedRoots) :
    ∃ other ∈ second.acceptedRoots, other.id = root.id := by
  obtain ⟨hid, hpackage, haccepts⟩ := (mem_acceptedRoots hfirst root).mp hroot
  obtain ⟨other, hother, hpackages⟩ := h.exists_package hpackage
  have hnumber := hsecond.id_eq hother
  refine ⟨other, (mem_acceptedRoots hsecond other).mpr ⟨?_, ?_, ?_⟩, hnumber⟩
  · rw [hnumber]
    exact (h.roots root.id).mp hid
  · rw [hnumber]
    exact hother
  · rw [← h.options_eq, ← acceptsPackage_eq hfilters hpackages]
    exact haccepts

theorem Alike.reachable (h : first.Alike second) (hfilters : first.options.FiltersByName)
    (hfirst : first.Consistent) (hsecond : second.Consistent) (descend : String → Bool) {id : PackageId}
    (hreachable : first.Reachable (fun package => descend package.path) id) :
    second.Reachable (fun package => descend package.path) id := by
  obtain ⟨root, hroot, hpath⟩ := hreachable
  obtain ⟨other, hother, hid⟩ := h.exists_acceptedRoot hfilters hfirst hsecond hroot
  refine ⟨other, hother, ?_⟩
  rw [hid]
  exact Relation.ReflTransGen.mono (fun _ _ => h.follows hfilters descend) _ _ hpath

/-- A traversal comes to the same packages in both programs. -/
theorem Alike.reachable_iff (h : first.Alike second) (hfilters : first.options.FiltersByName)
    (hfirst : first.Consistent) (hsecond : second.Consistent) (descend : String → Bool) (id : PackageId) :
    first.Reachable (fun package => descend package.path) id ↔
      second.Reachable (fun package => descend package.path) id := by
  refine ⟨h.reachable hfilters hfirst hsecond descend, h.symm.reachable ?_ hsecond hfirst descend⟩
  rw [← h.options_eq]
  exact hfilters

end Program

/-! Uses in another order. -/

/-- What a package records, which is all that the uses of a definition depend on. -/
def Package.tables (package : Package) : OrderedMap Occurrence (Option SymbolId) × OrderedMap Occurrence SymbolId :=
  (package.definitions, package.uses)

theorem perm_usesOf {packages others : List Package}
    (h : (packages.map Package.tables).Perm (others.map Package.tables)) (symbol : SymbolId) :
    (usesOf packages symbol).Perm (usesOf others symbol) := by
  have htables : ∀ packages : List Package, usesOf packages symbol =
      (packages.map Package.tables).flatMap fun t => (t.2.entries.filter fun u => u.2 = symbol).map Prod.fst := by
    intro packages
    rw [List.flatMap_map]
    rfl
  rw [htables, htables]
  exact h.flatMap_right _

theorem perm_usesAt {packages others : List Package}
    (h : (packages.map Package.tables).Perm (others.map Package.tables)) (definition : Occurrence) :
    (usesAt packages definition).Perm (usesAt others definition) := by
  have htables : ∀ packages : List Package, usesAt packages definition =
      (packages.map Package.tables).flatMap fun t => (t.1.get? definition).join.elim [] (usesOf packages) := by
    intro packages
    rw [List.flatMap_map]
    refine List.flatMap_congr fun package _ => ?_
    rcases hget : package.definitions.get? definition with _ | _ | symbol <;> simp [Package.tables, hget]
  rw [htables, htables]
  apply h.flatMap
  intro t _
  cases (t.1.get? definition).join with
  | none => exact List.Perm.refl []
  | some symbol => exact perm_usesOf h symbol

namespace Program
variable {first second : Program}

theorem Alike.perm_tables_postOrder (h : first.Alike second) (hfilters : first.options.FiltersByName)
    (hfirst : first.Consistent) (hsecond : second.Consistent) :
    (first.postOrder.map Package.tables).Perm (second.postOrder.map Package.tables) := by
  have hleft : (first.leftIds fun _ => true).Perm (second.leftIds fun _ => true) := by
    refine (List.perm_ext_iff_of_nodup (nodup_leftIds hfirst _) (nodup_leftIds hsecond _)).mpr fun id => ?_
    rw [mem_leftIds hfirst, mem_leftIds hsecond]
    exact h.reachable_iff hfilters hfirst hsecond (fun _ => true) id
  refine h.perm_map_packages (fun hpackages => ?_) hleft
  rw [Package.tables, Package.tables, hpackages.definitions, hpackages.uses]

/-- Both programs list uses under the same definitions, and under each the same ones. -/
theorem Alike.definitionUses (h : first.Alike second) (hfilters : first.options.FiltersByName)
    (hfirst : first.Consistent) (hsecond : second.Consistent) (definition : Occurrence) :
    (definition ∈ first.definitionUses.keys ↔ definition ∈ second.definitionUses.keys) ∧
    ∀ uses others, first.definitionUses.get? definition = some uses →
      second.definitionUses.get? definition = some others → uses.Perm others := by
  have hperm := perm_usesAt (h.perm_tables_postOrder hfilters hfirst hsecond) definition
  have hkey (program : Program) :
      definition ∈ program.definitionUses.keys ↔ usesAt program.postOrder definition ≠ [] := by
    have hget : program.definitionUses.get? definition = _ := get?_definitionUsesOf program.postOrder definition
    rw [OrderedMap.mem_keys_iff, hget]
    split
    · next hnil => simp [hnil]
    · next hne => simp [hne]
  refine ⟨?_, fun uses others huses hothers => ?_⟩
  · rw [hkey, hkey]
    exact not_congr ⟨fun hnil => (hnil ▸ hperm).nil_eq.symm, fun hnil => (hnil ▸ hperm).eq_nil⟩
  · rw [first.get?_definitionUses huses, second.get?_definitionUses hothers]
    exact hperm

/-- Findings in another order are loaded too, and nothing but order changes: the same packages are reached
    and stand under the same paths, a traversal enters and leaves the same ones, and uses are listed
    under the same definitions, under each the same ones equally often. -/
theorem load_ignores_order {host : Host} {directory : String} {options : LoadOptions} {first second : Findings}
    {program : Program} (h : (load host directory options fun _ => .ok first).outcome = .ok program)
    (hreordered : first.Reordered second) (hdistinct : program.DistinctNames)
    (hfilters : options.FiltersByName) :
    ∃ other, (load host directory options fun _ => .ok second).outcome = .ok other ∧
      (∀ id, id ∈ program.reached ↔ id ∈ other.reached) ∧
      (∀ path, program.index.get? path = other.index.get? path) ∧
      (∀ (descend : String → Bool) id,
        (.enter id ∈ program.visitPackages (fun package => descend package.path) ↔
          .enter id ∈ other.visitPackages fun package => descend package.path) ∧
        (.leave id ∈ program.visitPackages (fun package => descend package.path) ↔
          .leave id ∈ other.visitPackages fun package => descend package.path)) ∧
      (∀ definition, definition ∈ program.definitionUses.keys ↔ definition ∈ other.definitionUses.keys) ∧
      ∀ definition uses others, program.definitionUses.get? definition = some uses →
        other.definitionUses.get? definition = some others → uses.Perm others := by
  obtain ⟨absolute, findings, habsolute, hfound, hfault, rfl⟩ := exists_of_load h
  cases hfound
  have hfault' := hreordered.fault?_eq_none hfault
  have hfirst := loaded_ofFindings options absolute hfault
  have hsecond := loaded_ofFindings options absolute hfault'
  have hprograms := reordered_ofFindings options absolute hreordered
  have halike := hprograms.alike hfirst hsecond hdistinct
  have hreachable := halike.reachable_iff hfilters hfirst.toConsistent hsecond.toConsistent
  have huses := halike.definitionUses hfilters hfirst.toConsistent hsecond.toConsistent
  refine ⟨ofFindings options absolute second, ?_, hprograms.mem_reached_iff hfirst hsecond, halike.index_eq,
    fun descend id => ⟨?_, ?_⟩, fun definition => (huses definition).1, fun definition => (huses definition).2⟩
  · simp only [load, habsolute, hfault']
  · rw [boundary_mem_iff hfirst.toConsistent _ (Or.inl rfl), boundary_mem_iff hsecond.toConsistent _ (Or.inl rfl)]
    exact hreachable descend id
  · rw [leave_mem_iff hfirst.toConsistent, leave_mem_iff hsecond.toConsistent]
    exact hreachable descend id

/-! A package that imports two others, which may be named in either order. -/

/-- Imports the given packages, in the given order. -/
def importerOf (imported : List (String × PackageId)) : Package where
  key := "a"
  path := "a"
  name := "a"
  files := [⟨⟨0⟩, "a", ⟨0, [], imported.map fun e => ⟨none, PathLiteral.quote e.1, 0⟩, []⟩⟩]
  imports := .ofList imported

/-- Its only identifier uses a symbol of a package that it does not import. -/
def lateUser : Package where
  key := "c"
  path := "c"
  name := "c"
  files := [⟨⟨2⟩, "c", ⟨0, [], [], [⟨"F", 20⟩]⟩⟩]
  uses := .ofList [(⟨⟨2⟩, 0⟩, ⟨0⟩)]

def threeFindings (imported : List (String × PackageId)) (roots : List PackageId) : Findings where
  packages := [importerOf imported, definerPackage, lateUser]
  roots := roots
  symbols := { symbols := [⟨"F", .func, some "b", none⟩] }

theorem reordered_threeFindings :
    (threeFindings [("b", ⟨1⟩), ("c", ⟨2⟩)] [⟨0⟩, ⟨2⟩]).Reordered
      (threeFindings [("c", ⟨2⟩), ("b", ⟨1⟩)] [⟨2⟩, ⟨0⟩, ⟨2⟩]) where
  packages := by
    refine .cons ⟨rfl, rfl, rfl, .cons ⟨rfl, rfl, rfl, rfl, ?_, rfl⟩ .nil, ?_, rfl, rfl, rfl, rfl⟩
      (.cons (.refl _) (.cons (.refl _) .nil))
    · exact List.Perm.swap _ _ _
    · exact List.Perm.swap _ _ _
  roots := by simp [threeFindings, or_comm]
  symbols := rfl
  universeScope := rfl
  files := rfl

def threeOptions : LoadOptions :=
  ({ dependencies := true } : LoadOptions).skipGenerated.addPackageFilter fun package => package.path != "d"

theorem filtersByName_threeOptions : threeOptions.FiltersByName where
  package := by
    intro filter hfilter first second hpath _ _
    obtain rfl := List.mem_singleton.mp hfilter
    simp only [hpath]
  file := by
    intro filter hfilter first second _ _ _ _ hgenerated
    obtain rfl := List.mem_singleton.mp hfilter
    simp only [SourceUnit.isGenerated, hgenerated]

def threeProgram : Program := ofFindings threeOptions "/" (threeFindings [("b", ⟨1⟩), ("c", ⟨2⟩)] [⟨0⟩, ⟨2⟩])

theorem load_threeFindings :
    (load {} "/" threeOptions fun _ => .ok (threeFindings [("b", ⟨1⟩), ("c", ⟨2⟩)] [⟨0⟩, ⟨2⟩])).outcome =
      .ok threeProgram := rfl

theorem distinctNames_threeProgram : threeProgram.DistinctNames := by
  have hreached : threeProgram.reached = [⟨1⟩, ⟨2⟩, ⟨0⟩] := by cbv
  have hpackages : threeProgram.reachedPackages = [⟨1⟩, ⟨2⟩, ⟨0⟩].filterMap threeProgram.package? := by
    rw [reachedPackages, hreached]
  refine ⟨?_, ?_⟩ <;> rw [hpackages]
  · exact (by decide : ["b", "c", "a"].Nodup)
  · exact (by decide : ["b", "c", "a"].Nodup)

theorem load_ignores_order_threeFindings :
    ∃ other, (load {} "/" threeOptions fun _ =>
        .ok (threeFindings [("c", ⟨2⟩), ("b", ⟨1⟩)] [⟨2⟩, ⟨0⟩, ⟨2⟩])).outcome = .ok other ∧
      other.index.get? "b" = some ⟨1⟩ ∧ (.leave ⟨1⟩ ∈ other.visitPackages fun package => package.path != "b") ∧
      ∃ uses, other.definitionUses.get? ⟨⟨1⟩, 0⟩ = some uses ∧ uses.Perm [⟨⟨1⟩, 2⟩, ⟨⟨2⟩, 0⟩] := by
  have hindex : threeProgram.index.get? "b" = some ⟨1⟩ := by cbv
  have hvisited : .leave ⟨1⟩ ∈ threeProgram.visitPackages fun package => package.path != "b" :=
    of_decide_eq_true (by cbv)
  have huses : threeProgram.definitionUses.get? ⟨⟨1⟩, 0⟩ = some [⟨⟨1⟩, 2⟩, ⟨⟨2⟩, 0⟩] := by cbv
  obtain ⟨other, hload, _, hpaths, hvisits, hkeys, hperm⟩ :=
    load_ignores_order load_threeFindings reordered_threeFindings distinctNames_threeProgram filtersByName_threeOptions
  have hkey : ⟨⟨1⟩, 0⟩ ∈ other.definitionUses.keys := (hkeys _).mp ((OrderedMap.mem_keys_iff _ _).mpr ⟨_, huses⟩)
  obtain ⟨uses, hothers⟩ := (OrderedMap.mem_keys_iff _ _).mp hkey
  exact ⟨other, hload, (hpaths "b").symm.trans hindex, (hvisits (· != "b") ⟨1⟩).2.mp hvisited, uses, hothers,
    (hperm _ _ _ huses hothers).symm⟩

-- the order of the uses does change
example :
    (ofFindings threeOptions "/" (threeFindings [("c", ⟨2⟩), ("b", ⟨1⟩)] [⟨2⟩, ⟨0⟩, ⟨2⟩])).definitionUses.entries =
      [(⟨⟨1⟩, 0⟩, [⟨⟨2⟩, 0⟩, ⟨⟨1⟩, 2⟩])] := by cbv

end Program

end ProgramIndex
