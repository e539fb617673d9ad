import CodeAtlas.Ignore.Patterns
import CodeAtlas.Proofs.Links.Afresh
import CodeAtlas.Proofs.Source.Units
import CodeAtlas.Proofs.Text.Split

/-!
# Files with one identifier

An identifier is made of a path by putting dots for its slashes. A dot within a name, and the
suffix that is left out, are lost that way. This file says for which files of a repository the
identifiers agree, and what becomes of such files in a survey: one node, which belongs to the
first of them.
-/

namespace CodeAtlas

/-! ## The words of a file's path -/

/-- The words of a path below a source root: its components without the suffix of the last one,
cut at their dots. -/
def wordsOfPath (parts : List String) : List String :=
  (parts.dropLast ++ [Text.beforeLast (parts.getLast?.getD "") "."]).flatMap fun p =>
    Text.split p '.'

/-- The words without a package's own file at their end. -/
def withoutPackageFile (words : List String) : List String :=
  if 2 ≤ words.length ∧ words.getLast? = some "__init__" then words.dropLast else words

namespace Examiner

/-- The words by which a file is known: those of its path below the root, or of its stem if it is
not below the root. In Python a package's own file stands for its directory. -/
def wordsOf (e : Examiner) (t : FileTree) (root file : Path) : List String :=
  let words := match (t.resolve file).relativeTo? (t.resolve root) with
    | some parts => wordsOfPath parts
    | none => Text.split file.stem '.'
  if e.language = .python then withoutPackageFile words else words

end Examiner

/-- The identifier of a file holds the words of its path. -/
theorem split_fileIdentifier (t : FileTree) (file root : Path) :
    Text.split (fileIdentifier t file root) '.' =
      match (t.resolve file).relativeTo? (t.resolve root) with
      | some parts => wordsOfPath parts
      | none => Text.split file.stem '.' := by
  unfold fileIdentifier
  cases (t.resolve file).relativeTo? (t.resolve root) with
  | none => rfl
  | some parts =>
    dsimp only
    cases hparts : parts.dropLast with
    | nil =>
      rw [wordsOfPath, hparts, List.nil_append]
      exact Text.split_join rfl
    | cons part rest =>
      rw [wordsOfPath, hparts, List.cons_append]
      exact Text.split_join rfl

/-- The words before a package's own file are those of its directory. -/
theorem withoutPackageFile_append {words : List String} (h : words ≠ []) :
    withoutPackageFile (words ++ ["__init__"]) = words := by
  have hlength : 0 < words.length := List.length_pos_iff.2 h
  unfold withoutPackageFile
  rw [if_pos ⟨by simp; omega, by simp⟩, List.dropLast_concat]

theorem split_append_packagePart (s : String) :
    Text.split (s ++ PythonModule.packagePart) '.' = Text.split s '.' ++ ["__init__"] := by
  have hdot : PythonModule.packagePart = "." ++ "__init__" := rfl
  rw [hdot, ← String.append_assoc, Text.split_append rfl]
  rfl

/-- Leaving out the part of a package's own file leaves out the word for it. -/
theorem split_pythonIdentifier (t : FileTree) (file root : Path) :
    Text.split (PythonModule.identifier t file root) '.' =
      withoutPackageFile (Text.split (fileIdentifier t file root) '.') := by
  unfold PythonModule.identifier
  generalize fileIdentifier t file root = id
  dsimp only
  split
  · next hends =>
    obtain ⟨start, rfl⟩ := Text.endsWith_iff.1 hends
    rw [Text.dropLastChars_append, split_append_packagePart,
      withoutPackageFile_append (Text.split_ne_nil start '.')]
  · next hends =>
    unfold withoutPackageFile
    rw [if_neg]
    rintro ⟨hlength, hlast⟩
    -- else the text would be that of the other words with the package's part behind it
    apply hends
    obtain ⟨words, hwords⟩ := List.getLast?_eq_some_iff.1 hlast
    obtain ⟨word, rest, rfl⟩ : ∃ word rest, words = word :: rest := by
      cases words with
      | nil => simp [hwords] at hlength
      | cons word rest => exact ⟨word, rest, rfl⟩
    refine Text.endsWith_iff.2 ⟨Text.join "." (word :: rest), Text.split_injective '.' ?_⟩
    have hcut (p : String) (hp : p ∈ word :: rest) : Text.split p '.' = [p] :=
      Text.split_of_mem_split (s := id) (hwords ▸ List.mem_append_left _ hp)
    rw [split_append_packagePart, Text.split_join rfl, hwords, List.flatMap_congr hcut,
      List.flatMap_singleton']

namespace Examiner

theorem split_identifier (e : Examiner) (t : FileTree) (file root : Path) :
    Text.split (e.identifier t file root) '.' = e.wordsOf t root file := by
  obtain ⟨language, tools⟩ := e
  unfold wordsOf
  dsimp only
  rw [← split_fileIdentifier]
  cases language with
  | python => exact split_pythonIdentifier t file root
  | java => rfl
  | typescript => rfl
  | go => rfl

/-- Files have one identifier exactly if the words of their paths agree. -/
theorem identifier_eq_iff (e : Examiner) (t : FileTree) (root file other : Path) :
    e.identifier t file root = e.identifier t other root ↔
      e.wordsOf t root file = e.wordsOf t root other := by
  rw [← split_identifier, ← split_identifier]
  exact ⟨fun h => by rw [h], Text.split_injective '.'⟩

end Examiner

/-! ## The nodes of a survey -/

namespace Survey

open Fallible

variable {e : Examiner} {t : FileTree} {repository : Path}

theorem identifiers_addNode (g : Graph) (id file : String) :
    (g.addNode id file).identifiers = appendNew g.identifiers id := by
  unfold Graph.addNode appendNew
  by_cases hid : g.contains id = true
  · have hknown : id ∈ g.identifiers := (Dict.contains_iff_mem_keys _ _).1 hid
    rw [if_pos hid, if_pos hknown]
  · have hnew : id ∉ g.identifiers := fun h => hid ((Dict.contains_iff_mem_keys _ _).2 h)
    rw [if_neg hid, if_neg hnew]
    unfold Graph.identifiers Dict.keys
    rw [Dict.entries_insert_of_new hnew, List.map_append]
    rfl

/-- The nodes are the units' identifiers where they first occur, each with the file of the unit
that has it first. -/
structure FirstComeFirst (t : FileTree) (repository : Path) (units : List SourceUnit) (g : Graph) :
    Prop where
  identifiers : g.identifiers = firstOccurrences (units.map (·.identifier))
  files : ∀ j u, units.find? (fun u => u.identifier = j) = some u →
    ∃ file, u.relativePath t repository = .ok file ∧ g.sourceFile? j = some file

theorem FirstComeFirst.congr {units : List SourceUnit} {g h : Graph}
    (hg : FirstComeFirst t repository units g) (hnodes : h.nodes = g.nodes) :
    FirstComeFirst t repository units h := by
  obtain ⟨hids, hfiles⟩ := hg
  constructor <;> simpa only [Graph.identifiers, Graph.sourceFile?, hnodes]

theorem FirstComeFirst.addNode {units : List SourceUnit} {g : Graph}
    (hg : FirstComeFirst t repository units g) {u : SourceUnit} {file : String}
    (hfile : u.relativePath t repository = .ok file) :
    FirstComeFirst t repository (units ++ [u]) (g.addNode u.identifier file) where
  identifiers := by
    rw [identifiers_addNode, hg.identifiers, firstOccurrences, firstOccurrences, List.map_append,
      List.foldl_append]
    rfl
  files j v hv := by
    rw [sourceFile?_addNode]
    rw [List.find?_append] at hv
    cases hfound : units.find? (fun u => u.identifier = j) with
    | some w =>
      rw [hfound] at hv
      obtain rfl : w = v := Option.some.inj hv
      obtain ⟨path, hpath, hnode⟩ := hg.files j w hfound
      refine ⟨path, hpath, ?_⟩
      have hknown : g.contains j = true := Dict.contains_of_get?_eq_some hnode
      rw [if_neg fun h => h.2 (h.1 ▸ hknown), hnode]
    | none =>
      rw [hfound, Option.none_or] at hv
      obtain rfl : u = v := (List.mem_singleton.1 (List.mem_of_find?_eq_some hv)).symm
      have hid : u.identifier = j := by simpa using List.find?_some hv
      have hnew : ¬g.contains u.identifier = true := by
        intro hknown
        have hmem : u.identifier ∈ units.map (·.identifier) := by
          have hlisted : u.identifier ∈ g.identifiers := (Dict.contains_iff_mem_keys _ _).1 hknown
          rw [hg.identifiers, firstOccurrences, mem_foldl_appendNew] at hlisted
          exact hlisted.resolve_left List.not_mem_nil
        obtain ⟨w, hw, hsame⟩ := List.mem_map.1 hmem
        exact absurd (hsame.trans hid) (by simpa using List.find?_eq_none.1 hfound w hw)
      exact ⟨file, hfile, if_pos ⟨hid.symm, hnew⟩⟩

/-- The nodes of a survey are those of its units. -/
theorem ensures_take_firstComeFirst (e : Examiner) (t : FileTree) (repository : Path) :
    Ensures (fun s => FirstComeFirst t repository s.units s.graph) (take e t repository) :=
  (ensures_take_induction (P := FirstComeFirst t repository) e ⟨rfl, fun j u h => by cases h⟩
    (fun _ _ _ _ hg hfile => hg.addNode hfile)
    (fun _ _ _ _ hg => hg.congr (Graph.nodes_addDependency ..))
    fun _ _ _ hg => hg.congr (Graph.nodes_markEntryPoint ..)).mono fun _ hs => hs.2

end Survey

/-! ## One node for all files with the same words -/

theorem length_firstOccurrences_eq_iff {α : Type} [DecidableEq α] (xs : List α) :
    (firstOccurrences xs).length = xs.length ↔ xs.Nodup := by
  have hnodup : (firstOccurrences xs).Nodup := nodup_foldl_appendNew List.nodup_nil xs
  have hperm : (firstOccurrences xs).Perm xs.dedup := by
    rw [List.perm_ext_iff_of_nodup hnodup xs.nodup_dedup]
    intro x
    rw [List.mem_dedup, mem_firstOccurrences]
  rw [hperm.length_eq, ← List.dedup_eq_self]
  exact ⟨xs.dedup_sublist.eq_of_length, fun h => by rw [h]⟩

namespace Survey

open Fallible

variable {e : Examiner} {t : FileTree} {repository root : Path} {files : List Path}

theorem nodup_identifiers_iff (e : Examiner) (t : FileTree) (root : Path) (files : List Path) :
    (files.map fun f => e.identifier t f root).Nodup ↔ (files.map (e.wordsOf t root)).Nodup := by
  unfold List.Nodup
  rw [List.pairwise_map, List.pairwise_map]
  exact List.Pairwise.iff fun {f f'} => not_congr (e.identifier_eq_iff t root f f')

/-- Two files of a repository have one identifier exactly if the words of their paths agree. The
survey of a repository succeeds if all its source files lie in it; its graph has one node for all
files with the same words, with the path of the first of them. So there is a node for every file,
with that file's path, exactly if no two files have the same words. -/
theorem one_node_for_same_words (hroot : e.sourceRoot (.ofFiles t) repository = .ok root)
    (hfiles : e.discover (.ofFiles t) repository = .ok files) (state : ExaminerState) :
    (∀ f f' : Path, e.identifier t f root = e.identifier t f' root ↔
      e.wordsOf t root f = e.wordsOf t root f') ∧
    ((∃ s after, (take e t repository).run state = (.ok s, after)) ↔
      ∀ u ∈ unitsOf e t root files, ∃ file, u.relativePath t repository = .ok file) ∧
    ∀ s after, (take e t repository).run state = (.ok s, after) →
      s.units = unitsOf e t root files ∧
      s.graph.identifiers = firstOccurrences (files.map fun f => e.identifier t f root) ∧
      (∀ u ∈ s.units, ∃ first file, s.units.find? (fun v => v.identifier = u.identifier) =
          some first ∧ first.relativePath t repository = .ok file ∧
        s.graph.sourceFile? u.identifier = some file) ∧
      (s.graph.identifiers.length = files.length ↔ (files.map (e.wordsOf t root)).Nodup) ∧
      ((files.map (e.wordsOf t root)).Nodup → ∀ u ∈ s.units,
        ∃ file, u.relativePath t repository = .ok file ∧
          s.graph.sourceFile? u.identifier = some file) := by
  have hcovers := ensures_take_covers e t repository
  have hunits (s : Survey) (after : ExaminerState)
      (hrun : (take e t repository).run state = (.ok s, after)) :
      s.units = unitsOf e t root files := by
    obtain ⟨root', files', hroot', hfiles', hunits⟩ := (hcovers state s after hrun).found
    obtain rfl : root = root' := Except.ok.inj (hroot.symm.trans hroot')
    obtain rfl : files = files' := Except.ok.inj (hfiles.symm.trans hfiles')
    exact hunits
  refine ⟨e.identifier_eq_iff t root, ⟨?_, fun h => succeeds_take hroot hfiles h state⟩, ?_⟩
  · rintro ⟨s, after, hrun⟩
    rw [← hunits s after hrun]
    exact (hcovers state s after hrun).nodes.inside
  · intro s after hrun
    have hnodes := (hcovers state s after hrun).nodes
    have hfirst := ensures_take_firstComeFirst e t repository state s after hrun
    have hidentifiers : s.units.map (·.identifier) = files.map fun f => e.identifier t f root := by
      rw [hunits s after hrun, unitsOf, List.map_map]
      rfl
    refine ⟨hunits s after hrun, hidentifiers ▸ hfirst.identifiers, ?_, ?_, ?_⟩
    · intro u hu
      cases hfound : s.units.find? (fun v => v.identifier = u.identifier) with
      | none => exact absurd (decide_eq_true rfl) (List.find?_eq_none.1 hfound u hu)
      | some first =>
        obtain ⟨file, hfile, hnode⟩ := hfirst.files u.identifier first hfound
        exact ⟨first, file, rfl, hfile, hnode⟩
    · rw [hfirst.identifiers, hidentifiers, ← nodup_identifiers_iff,
        ← length_firstOccurrences_eq_iff, List.length_map]
    · intro hwords
      refine hnodes.files ?_
      rw [hidentifiers]
      exact (nodup_identifiers_iff e t root files).2 hwords

/-- A source file of the package `a`. -/
def packageFile : FileNode :=
  .file "package a".toUTF8 (some (.node "source_file" true "" 0 9
    [.node "package_clause" true "" 0 9
      [.node "package" false "" 0 7 [], .node "package_identifier" true "" 8 9 []]]))

/-- Two files of a package. -/
def siblings : FileTree :=
  ⟨⟨[(["a"], .directory), (["a", "b.go"], packageFile), (["a", "c.go"], packageFile)]⟩, []⟩

/-- Two files of a package have a node each, with their own paths. -/
theorem one_node_for_same_words_of_siblings :
    ∃ s after, (take ⟨.go, .standard, []⟩ siblings ⟨true, []⟩).run ⟨.empty, none⟩ = (.ok s, after) ∧
      s.graph.identifiers = ["a.b", "a.c"] ∧
      ∀ u ∈ s.units, ∃ file, u.relativePath siblings ⟨true, []⟩ = .ok file ∧
        s.graph.sourceFile? u.identifier = some file := by
  have hwords : ([⟨true, ["a", "b.go"]⟩, ⟨true, ["a", "c.go"]⟩].map
      (Examiner.wordsOf ⟨.go, .standard, []⟩ siblings ⟨true, []⟩)).Nodup := by
    decide +kernel
  have hroot : Examiner.sourceRoot ⟨.go, .standard, []⟩ (.ofFiles siblings) ⟨true, []⟩ =
      .ok ⟨true, []⟩ := rfl
  have hfiles : Examiner.discover ⟨.go, .standard, []⟩ (.ofFiles siblings) ⟨true, []⟩ =
      .ok [⟨true, ["a", "b.go"]⟩, ⟨true, ["a", "c.go"]⟩] := by
    rfl
  obtain ⟨-, hsucceeds, hsurvey⟩ := one_node_for_same_words hroot hfiles ⟨.empty, none⟩
  obtain ⟨s, after, hrun⟩ := hsucceeds.2 (by
    intro u hu
    simp only [unitsOf, List.map_cons, List.map_nil, List.mem_cons, List.not_mem_nil,
      or_false] at hu
    rcases hu with rfl | rfl
    · exact ⟨"a/b.go", by rfl⟩
    · exact ⟨"a/c.go", by rfl⟩)
  obtain ⟨-, hidentifiers, -, -, hfiles⟩ := hsurvey s after hrun
  refine ⟨s, after, hrun, hidentifiers.trans ?_, hfiles hwords⟩
  decide +kernel

/-- A file in a directory, and one with the directory's name and a dot in its own. -/
def homonyms : FileTree :=
  ⟨⟨[(["a"], .directory), (["a", "b.go"], packageFile), (["a.b.go"], packageFile)]⟩, []⟩

/-- Both are discovered, both have the same identifier, and there is one node. -/
theorem one_node_of_homonyms :
    Examiner.discover ⟨.go, .standard, []⟩ (.ofFiles homonyms) ⟨true, []⟩ =
        .ok [⟨true, ["a", "b.go"]⟩, ⟨true, ["a.b.go"]⟩] ∧
      Examiner.identifier ⟨.go, .standard, []⟩ homonyms ⟨true, ["a", "b.go"]⟩ ⟨true, []⟩ = "a.b" ∧
      Examiner.identifier ⟨.go, .standard, []⟩ homonyms ⟨true, ["a.b.go"]⟩ ⟨true, []⟩ = "a.b" ∧
      ∃ s after, (take ⟨.go, .standard, []⟩ homonyms ⟨true, []⟩).run ⟨.empty, none⟩ =
        (.ok s, after) ∧
        s.graph.nodes.toList = [("a.b", "a/b.go")] := by
  refine ⟨by rfl, by decide +kernel, by decide +kernel, ?_⟩
  have hoption : ((take ⟨.go, .standard, []⟩ homonyms ⟨true, []⟩).run ⟨.empty, none⟩).1.toOption.map
      (fun s => s.graph.nodes.toList) = some [("a.b", "a/b.go")] := by
    decide +kernel
  exact Fallible.exists_eq_ok hoption

end Survey

end CodeAtlas
