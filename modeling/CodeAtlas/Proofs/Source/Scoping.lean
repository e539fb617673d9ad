import CodeAtlas.Proofs.Source.Overloads
import CodeAtlas.Proofs.Text.Split

/-!
# Simple names of imported types

In Java a type that a file imports by its full name is what its simple name means throughout the
file. Dependencies and parameters do not look for it in the same way: every simple name of a type
also counts as one of the file's own package, whether or not it is imported, and a parameter's type
is one of the package if the imported one is not known. This file proves what the uses of an
imported name give, and that it is the imported type alone where the package has no known type of
the name.
-/

namespace CodeAtlas

/-- Whether a simple name stands in a file where a type is meant. -/
def SourceFile.Uses (f : SourceFile) (simple : String) : Prop :=
  ∃ t ∈ f.tree.descendants ["type_identifier"], f.text t = simple

namespace JavaFile

/-- Whether a file imports a type by its full name, and so under a simple name: no member of a type
and not all types of a package. -/
def ImportsAs (j : JavaFile) (full simple : String) : Prop :=
  Text.afterLast full "." = simple ∧
    ∃ i ∈ j.imports, i.isStatic = false ∧ i.isWildcard = false ∧ i.name = full

/-- The file as it were if a simple name stood nowhere in it. -/
def withoutUses (j : JavaFile) (simple : String) : JavaFile :=
  { j with typeReferences := j.typeReferences.filter (· ≠ simple) }

theorem mem_typeReferences (f : SourceFile) (simple : String) :
    simple ∈ (ofSource f).typeReferences ↔ f.Uses simple := by
  unfold ofSource SourceFile.Uses firstOccurrences
  dsimp only
  rw [mem_foldl_appendNew, or_iff_right (List.not_mem_nil), List.mem_map]

section File

variable {j : JavaFile} {known : List String} {full simple : String}

/-- Imports name known units only. -/
theorem mem_of_importTarget? {i : JavaImport} {u : String} (h : importTarget? known i = some u) :
    u ∈ known := by
  unfold importTarget? at h
  split at h
  · cases h
  · obtain ⟨hknown, heq⟩ := Option.ite_none_right_eq_some.1 h
    exact Option.some.inj heq ▸ List.contains_iff_mem.1 hknown

/-- A file depends on the known units that it imports and on the known classes of its package of
which it uses the simple names, but not on itself. -/
theorem mem_dependencies {u : String} :
    u ∈ j.dependencies known ↔ u ∈ known ∧ u ≠ j.qualified j.unitName ∧
      ((∃ i ∈ j.imports, importTarget? known i = some u) ∨
        ∃ used ∈ j.typeReferences, j.qualified used = u) := by
  unfold dependencies firstOccurrences
  dsimp only
  rw [List.mem_filter, decide_eq_true_iff, mem_foldl_appendNew, or_iff_right List.not_mem_nil,
    List.mem_append, List.mem_filterMap, List.mem_filter, List.contains_iff_mem, List.mem_map]
  constructor
  · rintro ⟨⟨i, hi, htarget⟩ | ⟨hused, hknown⟩, hown⟩
    · exact ⟨mem_of_importTarget? htarget, hown, .inl ⟨i, hi, htarget⟩⟩
    · exact ⟨hknown, hown, .inr hused⟩
  · rintro ⟨hknown, hown, himported | hused⟩
    · exact ⟨.inl himported, hown⟩
    · exact ⟨.inr ⟨hused, hknown⟩, hown⟩

/-- Without the uses of a name what that name gives is missing, unless something else gives it. -/
theorem mem_dependencies_iff_withoutUses {u : String} :
    u ∈ j.dependencies known ↔ u ∈ (j.withoutUses simple).dependencies known ∨
      (simple ∈ j.typeReferences ∧ u = j.qualified simple) ∧
        u ∈ known ∧ u ≠ j.qualified j.unitName := by
  have hqualified (name : String) : (j.withoutUses simple).qualified name = j.qualified name := rfl
  have hunit : (j.withoutUses simple).unitName = j.unitName := rfl
  have himports : (j.withoutUses simple).imports = j.imports := rfl
  have huses : (∃ used ∈ j.typeReferences, j.qualified used = u) ↔
      (∃ used ∈ (j.withoutUses simple).typeReferences, j.qualified used = u) ∨
        simple ∈ j.typeReferences ∧ u = j.qualified simple := by
    unfold withoutUses
    simp only [List.mem_filter, decide_eq_true_iff]
    constructor
    · rintro ⟨used, hused, rfl⟩
      by_cases hname : used = simple
      · exact .inr ⟨hname ▸ hused, hname ▸ rfl⟩
      · exact .inl ⟨used, ⟨hused, hname⟩, rfl⟩
    · rintro (⟨used, ⟨hused, -⟩, rfl⟩ | ⟨hused, rfl⟩)
      exacts [⟨used, hused, rfl⟩, ⟨simple, hused, rfl⟩]
  simp only [mem_dependencies, hqualified, hunit, himports, huses]
  constructor
  · rintro ⟨hknown, hown, himported | hother | hused⟩
    exacts [.inl ⟨hknown, hown, .inl himported⟩, .inl ⟨hknown, hown, .inr hother⟩,
      .inr ⟨hused, hknown, hown⟩]
  · rintro (⟨hknown, hown, himported | hother⟩ | ⟨hused, hknown, hown⟩)
    exacts [⟨hknown, hown, .inl himported⟩, ⟨hknown, hown, .inr (.inl hother)⟩,
      ⟨hknown, hown, .inr (.inr hused)⟩]

/-- An imported type is a dependency whatever the file uses. -/
theorem mem_dependencies_of_import (h : j.ImportsAs full simple) :
    full ∈ j.dependencies known ↔ full ∈ known ∧ full ≠ j.qualified j.unitName := by
  obtain ⟨-, i, hi, hstatic, hwildcard, rfl⟩ := h
  rw [mem_dependencies]
  refine and_congr_right fun hknown => and_iff_left (.inl ⟨i, hi, ?_⟩)
  unfold importTarget?
  simp [hwildcard, hstatic, hknown]

theorem importsAs_iff {name : String} :
    j.ImportsAs full name ↔ (name, full) ∈
      (j.imports.filter fun i => !i.isStatic && !i.isWildcard).map fun i =>
        (Text.afterLast i.name ".", i.name) := by
  unfold ImportsAs
  simp only [List.mem_map, List.mem_filter, Bool.and_eq_true, Bool.not_eq_true', Prod.mk.injEq]
  constructor
  · rintro ⟨hname, i, hi, hstatic, hwildcard, rfl⟩
    exact ⟨i, ⟨hi, hstatic, hwildcard⟩, hname, rfl⟩
  · rintro ⟨i, ⟨hi, hstatic, hwildcard⟩, hname, rfl⟩
    exact ⟨hname, i, hi, hstatic, hwildcard, rfl⟩

/-- Of the imports under one simple name one is kept. -/
theorem exists_importedTypes (h : j.ImportsAs full simple) :
    ∃ kept, j.importedTypes.get? simple = some kept ∧ j.ImportsAs kept simple := by
  have hkey : j.importedTypes.contains simple = true :=
    (Dict.contains_ofList _ simple).2 (List.mem_map.2 ⟨_, importsAs_iff.1 h, rfl⟩)
  obtain ⟨kept, hkept⟩ := Dict.exists_get?_of_contains hkey
  exact ⟨kept, hkept, importsAs_iff.2 (Dict.mem_of_get?_ofList hkept)⟩

theorem not_mem_dot_afterLast (s : String) : '.' ∉ (Text.afterLast s ".").toList := by
  unfold Text.afterLast
  split
  · next hcut => exact ((Text.splitLast?_eq_some Text.toList_dot).1 hcut).2
  · next hcut => exact (Text.splitLast?_eq_none Text.toList_dot).1 hcut

/-- A simple name that is imported means the import that is kept, or else, if that is not known, a
class of the file's package. -/
theorem resolveType?_of_import (hkept : j.importedTypes.get? simple = some full)
    (hname : Text.afterLast full "." = simple) (hne : simple ≠ "") {written : String}
    (hwritten : plainType written = simple) :
    j.resolveType? known written =
      if full ∈ known then some full
      else if j.qualified simple ∈ known then some (j.qualified simple) else none := by
  have hdot : ¬(simple.toList.contains '.' = true) := by
    rw [List.contains_iff_mem, ← hname]
    exact not_mem_dot_afterLast full
  unfold resolveType?
  simp only [hwritten, hne, if_false, hdot, Bool.false_and, Bool.false_eq_true, hkept]
  by_cases hknown : full ∈ known
  · simp [hknown, Option.filter_some]
  · simp [hknown, Option.filter_some]

/-- What is listed under a method's name is what a parameter of a method of that name means. -/
theorem exists_of_lists {name t : String} (h : (j.parameterTargets known).Lists name t) :
    ∃ m ∈ j.methods, m.name = name ∧ ∃ written ∈ m.parameterTypes,
      j.resolveType? known written = some t := by
  unfold parameterTargets at h
  revert h
  refine List.foldlRecOn (motive := fun r => MethodTargets.Lists r name t → _) j.methods _ ?_
    fun r hr m hm hlists => ?_
  · rintro ⟨_, hget, -⟩
    cases hget
  obtain ⟨targets, hget, ht⟩ := hlists
  rw [MethodTargets.get?_record] at hget
  split at hget
  · next hlast =>
    obtain rfl := Option.some.inj hget
    obtain ⟨written, hwritten, hmeans⟩ := List.mem_filterMap.1 ht
    exact ⟨m, hm, hlast.1, written, hwritten, hmeans⟩
  · exact hr ⟨targets, hget, ht⟩

end File

/-- What the uses of an imported type's simple name give. As dependencies they add the class of that
name of the file's own package if it is known, whether or not the imported type is; the imported
type is one if it is known. A parameter of the type is linked to the import that is kept for the
name if that is known, and else to the class of the package if that is. So where the package has no
known class of the name but the imported one, and only one type is imported under it, uses add
nothing to the dependencies, and parameters are linked to the imported type if it is known and to
nothing if it is not. -/
theorem uses_of_imported_name (f : SourceFile) (known : List String) {full simple : String}
    (himport : (ofSource f).ImportsAs full simple) :
    let j := ofSource f
    let neighbour := j.qualified simple
    (∀ u, u ∈ j.dependencies known ↔ u ∈ (j.withoutUses simple).dependencies known ∨
      (f.Uses simple ∧ u = neighbour) ∧ u ∈ known ∧ u ≠ j.qualified j.unitName) ∧
    (full ∈ j.dependencies known ↔ full ∈ known ∧ full ≠ j.qualified j.unitName) ∧
    (∀ name t, (j.parameterTargets known).Lists name t → ∃ m ∈ j.methods, m.name = name ∧
      ∃ written ∈ m.parameterTypes, j.resolveType? known written = some t) ∧
    (∃ kept, j.ImportsAs kept simple ∧ ∀ written, plainType written = simple → simple ≠ "" →
      j.resolveType? known written =
        if kept ∈ known then some kept else if neighbour ∈ known then some neighbour else none) ∧
    ((neighbour ∈ known → neighbour = full) → (∀ other, j.ImportsAs other simple → other = full) →
      (∀ u, u ∈ j.dependencies known ↔ u ∈ (j.withoutUses simple).dependencies known) ∧
      ∀ written, plainType written = simple → simple ≠ "" →
        j.resolveType? known written = if full ∈ known then some full else none) := by
  intro j neighbour
  have hadded (u : String) : u ∈ j.dependencies known ↔
      u ∈ (j.withoutUses simple).dependencies known ∨
        (f.Uses simple ∧ u = neighbour) ∧ u ∈ known ∧ u ≠ j.qualified j.unitName := by
    rw [← mem_typeReferences]
    exact mem_dependencies_iff_withoutUses
  obtain ⟨kept, hkept, himported⟩ := exists_importedTypes himport
  have hresolve (written : String) (hwritten : plainType written = simple) (hne : simple ≠ "") :
      j.resolveType? known written =
        if kept ∈ known then some kept else if neighbour ∈ known then some neighbour else none :=
    resolveType?_of_import hkept himported.1 hne hwritten
  refine ⟨hadded, mem_dependencies_of_import himport, fun name t => exists_of_lists,
    ⟨kept, himported, hresolve⟩, fun hneighbour honly =>
      ⟨fun u => ?_, fun written hwritten hne => ?_⟩⟩
  · rw [hadded]
    refine or_iff_left_of_imp ?_
    rintro ⟨⟨-, hu⟩, hknown, hown⟩
    rw [hu] at hknown hown ⊢
    have hthere : (j.withoutUses simple).ImportsAs full simple := himport
    have hsame := hneighbour hknown
    rw [hsame] at hknown hown ⊢
    exact (mem_dependencies_of_import hthere).2 ⟨hknown, hown⟩
  · rw [hresolve written hwritten hne, honly kept himported]
    by_cases hknown : full ∈ known
    · rw [if_pos hknown, if_pos hknown]
    · rw [if_neg hknown, if_neg hknown, if_neg fun h => hknown (hneighbour h ▸ h)]

/-- A class `C` of the package `p` with the import `q.S` and a method of a parameter `S`. -/
def importingClass : SourceFile where
  path := ⟨true, ["p", "C.java"]⟩
  content := "package p;import q.S;class C\x7bvoid m(S x)\x7b\x7d\x7d".toUTF8
  tree := .node "program" true "" 0 43
    [.node "package_declaration" true "" 0 10
      [.node "package" false "" 0 7 [], .node "identifier" true "" 8 9 [],
      .node ";" false "" 9 10 []],
    .node "import_declaration" true "" 10 21
      [.node "import" false "" 10 16 [],
      .node "scoped_identifier" true "" 17 20
        [.node "identifier" true "scope" 17 18 [], .node "." false "" 18 19 [],
        .node "identifier" true "name" 19 20 []],
      .node ";" false "" 20 21 []],
    .node "class_declaration" true "" 21 43
      [.node "class" false "" 21 26 [], .node "identifier" true "name" 27 28 [],
      .node "class_body" true "body" 28 43
        [.node "\x7b" false "" 28 29 [], Examiner.voidMethod 29,
        .node "\x7d" false "" 42 43 []]]]

theorem importsAs_importingClass : (ofSource importingClass).ImportsAs "q.S" "S" :=
  ⟨by decide +kernel, by decide +kernel⟩

/-- Without a class `S` in its package the parameter of the class is linked to the imported type. -/
theorem uses_of_imported_name_of_importingClass :
    "q.S" ∈ (ofSource importingClass).dependencies ["p.C", "q.S"] ∧
      (ofSource importingClass).resolveType? ["p.C", "q.S"] "S[]" = some "q.S" := by
  obtain ⟨-, himported, -, -, hscope⟩ :=
    uses_of_imported_name importingClass ["p.C", "q.S"] importsAs_importingClass
  have hneighbour : (ofSource importingClass).qualified "S" ∉ ["p.C", "q.S"] := by decide +kernel
  have honly : ∀ other, (ofSource importingClass).ImportsAs other "S" → other = "q.S" := by
    have hall : ∀ i ∈ (ofSource importingClass).imports, i.name = "q.S" := by decide +kernel
    rintro other ⟨-, i, hi, -, -, rfl⟩
    exact hall i hi
  obtain ⟨-, hresolve⟩ := hscope (fun h => absurd h hneighbour) honly
  refine ⟨himported.2 ⟨by decide, by decide +kernel⟩, ?_⟩
  rw [hresolve "S[]" (by decide +kernel) (by decide)]
  rfl

/-- With a class `S` in its package the class depends on that one, too, and if the imported type is
not known, its parameter is linked to the class of the package. -/
theorem neighbour_for_imported_name :
    (ofSource importingClass).ImportsAs "q.S" "S" ∧
      (ofSource importingClass).dependencies ["p.C", "p.S", "q.S"] = ["q.S", "p.S"] ∧
      (ofSource importingClass).dependencies ["p.C", "p.S"] = ["p.S"] ∧
      ((ofSource importingClass).parameterTargets ["p.C", "p.S"]).Lists "m" "p.S" := by
  exact ⟨importsAs_importingClass, by decide +kernel, by decide +kernel, ["p.S"], by decide +kernel,
    by decide⟩

end JavaFile

end CodeAtlas
