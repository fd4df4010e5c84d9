import ProgramIndex.Proofs.Ownership

/- The tables of a loaded program, and what they say about files. Packages may share files and a package
   may list one twice; a file belongs to its first listing (`FirstListing`), by package and then by
   place. The listings are gathered in that order (`pairwise_listings`), so the first one found is the
   owner (`get?_owners_iff`). `load_tables_point_back` puts this together with what the other tables
   hold: numbers, roots and index name packages of the program, and look-ups by occurrence answer
   from the first listing. -/
namespace ProgramIndex

/-- A package and a place in its list of files at which a file stands. -/
def ListedAt (packages : List Package) (file : FileId) (listing : PackageId × Nat) : Prop :=
  ∃ package source, packages[listing.1.index]? = some package ∧ package.files[listing.2]? = some source ∧
    source.file = file

/-- One listing stands before another: in an earlier package, or in the same one at an earlier place. -/
def Earlier (first second : PackageId × Nat) : Prop :=
  first.1.index < second.1.index ∨ first.1 = second.1 ∧ first.2 < second.2

/-- The listing of a file that stands before all its other ones. -/
structure FirstListing (packages : List Package) (file : FileId) (listing : PackageId × Nat) : Prop where
  listed : ListedAt packages file listing
  first : ∀ other, ListedAt packages file other → listing = other ∨ Earlier listing other

theorem Earlier.asymm {first second : PackageId × Nat} (h : Earlier first second) : ¬ Earlier second first := by
  intro h'
  rcases h with h | ⟨heq, h⟩ <;> rcases h' with h' | ⟨heq', h'⟩
  · omega
  · rw [heq'] at h
    omega
  · rw [heq] at h'
    omega
  · omega

theorem find?_eq_some_iff_of_pairwise {α : Type} {R : α → α → Prop} {l : List α} (hl : l.Pairwise R)
    (hasymm : ∀ {a b}, R a b → ¬ R b a) (p : α → Bool) (a : α) :
    l.find? p = some a ↔ (a ∈ l ∧ p a = true) ∧ ∀ b ∈ l, p b = true → a = b ∨ R a b := by
  rw [List.find?_eq_some_iff_append]
  refine ⟨fun h => ?_, fun h => ?_⟩
  · obtain ⟨ha, before, after, rfl, hbefore⟩ := h
    refine ⟨⟨by simp, ha⟩, fun b hb hpb => ?_⟩
    rcases List.mem_append.mp hb with hb | hb
    · have hnot := hbefore b hb
      rw [hpb] at hnot
      exact absurd hnot (by decide)
    · rcases List.mem_cons.mp hb with rfl | hb
      · exact Or.inl rfl
      · exact Or.inr ((List.pairwise_cons.mp (List.pairwise_append.mp hl).2.1).1 b hb)
  · obtain ⟨⟨hmem, ha⟩, hfirst⟩ := h
    obtain ⟨before, after, rfl⟩ := List.append_of_mem hmem
    refine ⟨ha, before, after, rfl, fun b hb => ?_⟩
    have hlt : R b a := (List.pairwise_append.mp hl).2.2 b hb a List.mem_cons_self
    cases hpb : p b with
    | false => rfl
    | true =>
      rcases hfirst b (List.mem_append_left _ hb) hpb with rfl | hgt
      · exact absurd hlt (hasymm hlt)
      · exact absurd hlt (hasymm hgt)

section Listings
variable {packages : List Package}
  (hid : ∀ {place : Nat} {package : Package}, packages[place]? = some package → package.id = ⟨place⟩)

include hid

theorem mem_listings (file : FileId) (listing : PackageId × Nat) :
    (file, listing) ∈ listings packages ↔ ListedAt packages file listing := by
  obtain ⟨⟨number⟩, place⟩ := listing
  simp only [listings, List.mem_flatMap, List.mem_map, Prod.mk.injEq, ListedAt]
  refine ⟨fun h => ?_, fun h => ?_⟩
  · obtain ⟨package, hpackage, ⟨source, at_⟩, hsource, rfl, hnumber, rfl⟩ := h
    obtain ⟨i, hi⟩ := List.mem_iff_getElem?.mp hpackage
    rw [hid hi] at hnumber
    obtain rfl := PackageId.mk.inj hnumber
    exact ⟨package, source, hi, List.mk_mem_zipIdx_iff_getElem?.mp hsource, rfl⟩
  · obtain ⟨package, source, hpackage, hsource, rfl⟩ := h
    exact ⟨package, List.mem_of_getElem? hpackage, (source, place), List.mk_mem_zipIdx_iff_getElem?.mpr hsource, rfl,
      hid hpackage, rfl⟩

/-- The listings come by package and, within a package, by place. -/
theorem pairwise_listings : (listings packages).Pairwise fun a b => Earlier a.2 b.2 := by
  refine List.pairwise_flatMap.mpr ⟨fun package _ => ?_, ?_⟩
  · -- within a package
    refine List.pairwise_map.mpr (List.pairwise_iff_getElem.mpr fun i j hi hj hij => ?_)
    simp only [List.getElem_zipIdx]
    exact Or.inr ⟨rfl, by omega⟩
  · -- from one package to a later one
    refine List.pairwise_iff_getElem.mpr fun i j hi hj hij a ha b hb => ?_
    obtain ⟨_, _, rfl⟩ := List.mem_map.mp ha
    obtain ⟨_, _, rfl⟩ := List.mem_map.mp hb
    refine Or.inl ?_
    show packages[i].id.index < packages[j].id.index
    rw [hid (List.getElem?_eq_getElem hi), hid (List.getElem?_eq_getElem hj)]
    exact hij

theorem get?_ownersByFile_iff (file : FileId) (owner : PackageId × Nat) :
    (ownersByFile packages).get? file = some owner ↔ FirstListing packages file owner := by
  rw [get?_ownersByFile, Option.map_eq_some_iff]
  simp only [find?_eq_some_iff_of_pairwise (pairwise_listings hid) Earlier.asymm, decide_eq_true_eq]
  refine ⟨fun h => ?_, fun h => ?_⟩
  · obtain ⟨⟨_, _⟩, ⟨⟨hmem, rfl⟩, hfirst⟩, rfl⟩ := h
    refine ⟨(mem_listings hid _ _).mp hmem, fun other hother => ?_⟩
    rcases hfirst _ ((mem_listings hid _ _).mpr hother) rfl with heq | hlt
    · exact Or.inl (Prod.mk.inj heq).2
    · exact Or.inr hlt
  · refine ⟨(file, owner), ⟨⟨(mem_listings hid _ _).mpr h.listed, rfl⟩, ?_⟩, rfl⟩
    rintro ⟨_, other⟩ hmem rfl
    rcases h.first other ((mem_listings hid _ _).mp hmem) with rfl | hlt
    · exact Or.inl rfl
    · exact Or.inr hlt

end Listings

theorem FirstListing.find?_eq {packages : List Package} {file : FileId} {listing : PackageId × Nat}
    (h : FirstListing packages file listing) :
    packages.find? (fun package => decide (file ∈ package.files.map (·.file))) = packages[listing.1.index]? := by
  obtain ⟨package, source, hpackage, hsource, hfile⟩ := h.listed
  obtain ⟨hlt, rfl⟩ := List.getElem?_eq_some_iff.mp hpackage
  rw [hpackage, List.find?_eq_some_iff_getElem]
  refine ⟨decide_eq_true ?_, listing.1.index, hlt, rfl, fun number hnumber => ?_⟩
  · exact List.mem_map.mpr ⟨source, List.mem_of_getElem? hsource, hfile⟩
  · -- a listing in an earlier package would stand before the first one
    simp only [Bool.not_eq_true', decide_eq_false_iff_not]
    intro hmem
    obtain ⟨other, hother, hsame⟩ := List.mem_map.mp hmem
    obtain ⟨place, hplace⟩ := List.mem_iff_getElem?.mp hother
    have hlisted : ListedAt packages file (⟨number⟩, place) :=
      ⟨_, other, List.getElem?_eq_getElem (Nat.lt_trans hnumber hlt), hplace, hsame⟩
    rcases h.first _ hlisted with heq | hlater | ⟨heq, _⟩
    · rw [heq] at hnumber
      exact absurd hnumber (Nat.lt_irrefl number)
    · exact absurd hnumber (Nat.lt_asymm hlater)
    · rw [heq] at hnumber
      exact absurd hnumber (Nat.lt_irrefl number)

theorem exists_owner_iff (packages : List Package) (file : FileId) :
    (∃ owner, (ownersByFile packages).get? file = some owner) ↔
      ∃ package ∈ packages, file ∈ package.files.map (·.file) := by
  have hlisted : (∃ l ∈ listings packages, l.1 = file) ↔ file ∈ (listings packages).map Prod.fst := List.mem_map.symm
  rw [get?_ownersByFile, ← Option.isSome_iff_exists, Option.isSome_map, List.find?_isSome]
  simp only [decide_eq_true_eq]
  rw [hlisted, map_file_listings]
  simp only [List.map_flatMap, List.mem_flatMap]

namespace Program
variable {program : Program}

theorem id_of_getElem? (hloaded : program.Loaded) {number : Nat} {package : Package}
    (hpackage : program.packages[number]? = some package) : package.id = ⟨number⟩ :=
  hloaded.id_eq (show program.package? ⟨number⟩ = some package from hpackage)

theorem get?_owners_iff (hloaded : program.Loaded) (file : FileId) (owner : PackageId × Nat) :
    program.owners.get? file = some owner ↔ FirstListing program.packages file owner := by
  rw [hloaded.owners_eq]
  exact get?_ownersByFile_iff (id_of_getElem? hloaded) file owner

/-- The owner of an occurrence is the first package that lists its file. -/
theorem packageOf?_eq_find? (hloaded : program.Loaded) (occurrence : Occurrence) :
    program.packageOf? occurrence =
      program.packages.find? fun package => decide (occurrence.file ∈ package.files.map (·.file)) := by
  rw [packageOf?]
  cases howner : program.owners.get? occurrence.file with
  | some owner => exact ((get?_owners_iff hloaded occurrence.file owner).mp howner).find?_eq.symm
  | none =>
    symm
    apply List.find?_eq_none.mpr
    intro package hpackage hlists
    rw [hloaded.owners_eq] at howner
    obtain ⟨owner, hsome⟩ :=
      (exists_owner_iff program.packages occurrence.file).mpr ⟨package, hpackage, of_decide_eq_true hlists⟩
    rw [howner] at hsome
    cases hsome

theorem ident?_eq_some_iff (hloaded : program.Loaded) (occurrence : Occurrence) (ident : Ident) :
    program.ident? occurrence = some ident ↔
      ∃ listing package source, FirstListing program.packages occurrence.file listing ∧
        program.packages[listing.1.index]? = some package ∧ package.files[listing.2]? = some source ∧
        source.tree.idents[occurrence.place]? = some ident := by
  simp only [ident?, Option.bind_eq_bind, Option.bind_eq_some_iff, get?_owners_iff hloaded, package?]
  refine ⟨fun h => ?_, fun h => ?_⟩
  · obtain ⟨listing, hfirst, package, hpackage, source, hsource, hident⟩ := h
    exact ⟨listing, package, source, hfirst, hpackage, hsource, hident⟩
  · obtain ⟨listing, package, source, hfirst, hpackage, hsource, hident⟩ := h
    exact ⟨listing, hfirst, package, hpackage, source, hsource, hident⟩

/-- In a loaded program a package stands at its own number, roots are packages, and the index names a
    package with the path that is looked up. A file has an owner exactly if some package lists it, reached
    or not, and the owner is the first listing. So an occurrence belongs to the first package that
    lists its file, and its identifier is read from the tree of the first listing. -/
theorem load_tables_point_back {host : Host} {directory : String} {options : LoadOptions} {frontEnd : FrontEnd}
    {program : Program} (h : (load host directory options frontEnd).outcome = .ok program) :
    (∀ (number : Nat) package, program.packages[number]? = some package → package.id = ⟨number⟩) ∧
    (∀ root ∈ program.roots, root.index < program.packages.length) ∧
    (∀ path id, program.index.get? path = some id →
      ∃ package, program.packages[id.index]? = some package ∧ package.path = path) ∧
    (∀ file, (∃ owner, program.owners.get? file = some owner) ↔
      ∃ package ∈ program.packages, file ∈ package.files.map (·.file)) ∧
    (∀ file owner, program.owners.get? file = some owner ↔ FirstListing program.packages file owner) ∧
    (∀ occurrence, program.packageOf? occurrence =
      program.packages.find? fun package => decide (occurrence.file ∈ package.files.map (·.file))) ∧
    (∀ occurrence ident, program.ident? occurrence = some ident ↔
      ∃ listing package source, FirstListing program.packages occurrence.file listing ∧
        program.packages[listing.1.index]? = some package ∧ package.files[listing.2]? = some source ∧
        source.tree.idents[occurrence.place]? = some ident) := by
  have hloaded := loaded_of_load h
  refine ⟨fun number package => id_of_getElem? hloaded, hloaded.root_lt, fun path id => hloaded.index_package,
    fun file => ?_, get?_owners_iff hloaded, packageOf?_eq_find? hloaded, ident?_eq_some_iff hloaded⟩
  rw [hloaded.owners_eq]
  exact exists_owner_iff program.packages file

/-! A program in which packages share a file and one lists a file twice. -/

/-- A file whose tree has one identifier. -/
def oneIdent (file : Nat) (name : String) : SourceFile := ⟨⟨file⟩, name, ⟨0, [], [], [⟨name, 0⟩]⟩⟩

/-- The first package is not reached. The second one lists a file of its own twice, and between the two the
    file of the first. -/
def sharingFindings : Findings where
  packages :=
    [{ key := "a", path := "p", name := "p", files := [oneIdent 0 "x"] },
     { key := "b", path := "p", name := "p", files := [oneIdent 1 "y", oneIdent 0 "z", oneIdent 1 "w"] }]
  roots := [⟨1⟩]

def sharingProgram : Program := ofFindings {} "/" sharingFindings

theorem load_sharingFindings : (load {} "/" {} fun _ => .ok sharingFindings).outcome = .ok sharingProgram := rfl

/-- The shared file belongs to the package that is not reached, and the file that is listed twice to its
    first place. -/
theorem load_tables_point_back_sharingProgram :
    FirstListing sharingProgram.packages ⟨0⟩ (⟨0⟩, 0) ∧ FirstListing sharingProgram.packages ⟨1⟩ (⟨1⟩, 0) ∧
    sharingProgram.ident? ⟨⟨1⟩, 0⟩ = some ⟨"y", 0⟩ := by
  obtain ⟨_, _, _, _, howners, _, hidents⟩ := load_tables_point_back load_sharingFindings
  have hshared := (howners ⟨0⟩ (⟨0⟩, 0)).mp (by decide)
  have htwice := (howners ⟨1⟩ (⟨1⟩, 0)).mp (by decide)
  exact ⟨hshared, htwice, (hidents ⟨⟨1⟩, 0⟩ ⟨"y", 0⟩).mpr ⟨(⟨1⟩, 0), _, _, htwice, rfl, rfl, rfl⟩⟩

end Program

end ProgramIndex
