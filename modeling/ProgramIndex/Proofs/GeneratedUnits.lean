import ProgramIndex.Proofs.GeneratorNotes

/- Which units count as generated. A file is generated if it has a marker, and a unit if the generator that it
   carries has a name. If files of one name have the same marker, the two agree on every unit but those
   whose marker names nothing (`isGenerated_eq_tree_iff`). So options that leave generated units out still
   hand over a file with such a marker (`skipGenerated_hands_over_unnamed`), and no other file with a marker
   (`skipGenerated_leaves_out_named`). -/
namespace ProgramIndex

/-- Options that leave generated units out, whatever filters stand before and after that one. -/
def LoadOptions.SkipsGenerated (options : LoadOptions) : Prop :=
  ∃ (earlier : LoadOptions) (later : List (SourceUnit → Bool)),
    options.fileFilters = earlier.skipGenerated.fileFilters ++ later

theorem LoadOptions.SkipsGenerated.isGenerated_eq_false {options : LoadOptions} (h : options.SkipsGenerated)
    {unit : SourceUnit} (haccepts : options.acceptsFile unit = true) : unit.isGenerated = false := by
  obtain ⟨earlier, later, hfilters⟩ := h
  have hfilter : (fun unit : SourceUnit => !unit.isGenerated) ∈ options.fileFilters := by
    rw [hfilters]
    exact List.mem_append_left later (List.mem_append_right earlier.fileFilters List.mem_cons_self)
  have hall : Filters.accept options.fileFilters unit = true := (Bool.and_eq_true_iff.mp haccepts).2
  simpa using List.all_eq_true.mp hall _ hfilter

namespace Program
variable {program : Program}

/-! Two notions of generated. -/

theorem isGenerated_iff_named {unit : SourceUnit} (hnoted : program.Noted unit)
    (hsame : SameMarkers program.reachedFiles) :
    unit.isGenerated = true ↔ ∃ generator, unit.file.tree.generator? = some generator ∧ generator ≠ "" := by
  rw [SourceUnit.isGenerated, bne_iff_ne, hnoted.generatedBy_eq hsame]
  cases unit.file.tree.generator? with
  | none => simp
  | some generator => simp

/-- The unit and its file agree unless the marker of the file names nothing. -/
theorem isGenerated_eq_tree_iff {unit : SourceUnit} (hnoted : program.Noted unit)
    (hsame : SameMarkers program.reachedFiles) :
    unit.isGenerated = unit.file.tree.isGenerated ↔ unit.file.tree.generator? ≠ some "" := by
  rw [Bool.eq_iff_iff, isGenerated_iff_named hnoted hsame, SyntaxTree.isGenerated]
  cases unit.file.tree.generator? with
  | none => simp
  | some generator => simp

/-! What is handed over. -/

theorem generator?_of_mem_rootUnits (hloaded : program.Loaded) (hsame : SameMarkers program.reachedFiles)
    (hskips : program.options.SkipsGenerated) {unit : SourceUnit} (hunit : unit ∈ program.rootUnits)
    (hmarked : unit.file.tree.isGenerated = true) : unit.file.tree.generator? = some "" := by
  obtain ⟨package, _, haccepted⟩ := List.mem_flatMap.mp hunit
  have hcounts : unit.isGenerated = false := hskips.isGenerated_eq_false (List.mem_filter.mp haccepted).2
  -- the unit does not count as generated although its file has a marker
  apply Decidable.byContradiction
  intro hnamed
  have hagree := (isGenerated_eq_tree_iff (noted_of_mem_rootUnits hloaded hunit) hsame).mpr hnamed
  rw [hcounts, hmarked] at hagree
  cases hagree

/-- If files of one name have the same marker, a unit of a reached package counts as generated exactly if the
    marker of its file names a generator; it agrees with its file unless the marker names nothing. Options
    that leave generated units out hand over no file with a marker but those whose marker names nothing,
    and so none at all if there are no such markers. -/
theorem skipGenerated_leaves_out_named {host : Host} {directory : String} {options : LoadOptions} {frontEnd : FrontEnd}
    {program : Program} (h : (load host directory options frontEnd).outcome = .ok program)
    (hsame : SameMarkers program.reachedFiles) :
    (∀ package ∈ program.reachedPackages, ∀ unit ∈ program.unitsOf package,
      (unit.isGenerated = true ↔ ∃ generator, unit.file.tree.generator? = some generator ∧ generator ≠ "") ∧
      (unit.isGenerated = unit.file.tree.isGenerated ↔ unit.file.tree.generator? ≠ some "")) ∧
    (options.SkipsGenerated →
      (∀ unit ∈ program.rootUnits, unit.file.tree.isGenerated = true → unit.file.tree.generator? = some "") ∧
      ((∀ file ∈ program.reachedFiles, file.tree.generator? ≠ some "") →
        ∀ unit ∈ program.rootUnits, unit.file.tree.isGenerated = false)) := by
  have hloaded := loaded_of_load h
  refine ⟨fun package hpackage unit hunit => ?_, fun hskips => ?_⟩
  · have hnoted := noted_of_mem_unitsOf hloaded hpackage hunit
    exact ⟨isGenerated_iff_named hnoted hsame, isGenerated_eq_tree_iff hnoted hsame⟩
  · rw [← options_of_load h] at hskips
    refine ⟨fun unit hunit => generator?_of_mem_rootUnits hloaded hsame hskips hunit, fun hnames unit hunit => ?_⟩
    apply Bool.eq_false_iff.mpr
    intro hmarked
    exact hnames unit.file (noted_of_mem_rootUnits hloaded hunit).file_mem
      (generator?_of_mem_rootUnits hloaded hsame hskips hunit hmarked)

/-! A package with a marker that names a generator and one that names nothing. -/

/-- The first and the third file have a marker. Between the opening and the closing of the second marker there
    is nothing. -/
def mixedPackage : Package where
  key := "p"
  path := "p"
  name := "p"
  files := [commentedFile "a.go" "// Code generated by a. DO NOT EDIT.", commentedFile "b.go" "// Package p.",
    commentedFile "c.go" "// Code generated  DO NOT EDIT."]

def mixedFindings : Findings where
  packages := [mixedPackage]
  roots := [⟨0⟩]

/-- Generated units are left out between two other filters. -/
def skippingOptions : LoadOptions :=
  (({ fileFilters := [fun _ => true] } : LoadOptions).skipGenerated).addFileFilter fun unit => unit.place != 7

def mixedProgram : Program := ofFindings skippingOptions "/" mixedFindings

theorem load_mixedFindings :
    (load {} "/" skippingOptions fun _ => .ok mixedFindings).outcome = .ok mixedProgram := rfl

theorem skipsGenerated_skippingOptions : skippingOptions.SkipsGenerated :=
  ⟨{ fileFilters := [fun _ => true] }, [fun unit => unit.place != 7], rfl⟩

theorem reachedPackages_mixedProgram : mixedProgram.reachedPackages = [mixedPackage] := by
  have hreached : mixedProgram.reached = [⟨0⟩] := by
    show gather [mixedPackage] false [⟨0⟩] = [⟨0⟩]
    cbv
  rw [reachedPackages, hreached]
  rfl

theorem reachedFiles_mixedProgram : mixedProgram.reachedFiles = mixedPackage.files := by
  rw [reachedFiles, reachedPackages_mixedProgram]
  rfl

theorem unnamed_mem_rootUnits_mixedProgram :
    ∃ unit ∈ mixedProgram.rootUnits, unit.file = commentedFile "c.go" "// Code generated  DO NOT EDIT." := by
  have hfirst : FirstNamed mixedProgram.reachedFiles "c.go" (commentedFile "c.go" "// Code generated  DO NOT EDIT.") :=
    ⟨mixedPackage.files.take 2, [], reachedFiles_mixedProgram, rfl, by decide⟩
  have hgenerated : mixedProgram.generatedBy? "c.go" = some "" := by
    rw [generatedBy?_of_firstNamed (loaded_of_load load_mixedFindings) hfirst]
    decide
  have hroot : mixedPackage ∈ mixedProgram.acceptedRoots := List.mem_cons_self
  exact ⟨_, mem_rootUnits_of_getElem? hroot (by rfl : mixedPackage.files[2]? = some _) hgenerated (by decide), rfl⟩

theorem skipGenerated_leaves_out_mixedProgram :
    SameMarkers mixedProgram.reachedFiles ∧ skippingOptions.SkipsGenerated ∧
    ∀ unit ∈ mixedProgram.rootUnits, unit.file.tree.isGenerated = true → unit.file.tree.generator? = some "" := by
  have hsame : SameMarkers mixedProgram.reachedFiles := by
    rw [reachedFiles_mixedProgram]
    decide
  obtain ⟨_, hskips⟩ := skipGenerated_leaves_out_named load_mixedFindings hsame
  exact ⟨hsame, skipsGenerated_skippingOptions, (hskips skipsGenerated_skippingOptions).1⟩

/-- Not every load with options that leave generated units out makes a program that hands over no file with a
    marker, even if all files of one name have the same marker. -/
theorem skipGenerated_hands_over_unnamed :
    ¬ ∀ (host : Host) (directory : String) (options : LoadOptions) (frontEnd : FrontEnd) (program : Program),
      (load host directory options frontEnd).outcome = .ok program → options.SkipsGenerated →
        SameMarkers (program.packages.flatMap (·.files)) →
          ∀ unit ∈ program.rootUnits, unit.file.tree.isGenerated = false := by
  intro hall
  obtain ⟨unit, hunit, hfile⟩ := unnamed_mem_rootUnits_mixedProgram
  have hmarked := hall _ _ _ _ _ load_mixedFindings skipsGenerated_skippingOptions (by decide) unit hunit
  rw [hfile] at hmarked
  exact absurd hmarked (by decide)

end Program

end ProgramIndex
