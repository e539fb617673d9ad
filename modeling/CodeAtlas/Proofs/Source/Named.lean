import CodeAtlas.Proofs.Source.Discovered
import CodeAtlas.Proofs.Source.Units

/-!
# Paths whose components are names

No file system has an entry with an empty name. This file proves that in such a tree the path that
a surveyed unit has below its repository is no empty text.
-/

namespace CodeAtlas

namespace FileTree

/-- A tree in whose paths no component is empty. -/
structure Named (t : FileTree) : Prop where
  names : ∀ parts ∈ t.nodes.keys, "" ∉ parts
  workingDirectory : "" ∉ t.workingDirectory

instance (t : FileTree) : Decidable t.Named :=
  decidable_of_iff ((∀ parts ∈ t.nodes.keys, "" ∉ parts) ∧ "" ∉ t.workingDirectory)
    ⟨fun h => ⟨h.1, h.2⟩, fun h => ⟨h.names, h.workingDirectory⟩⟩

variable {t : FileTree}

/-- A path that is read from a text has names as its components. -/
theorem empty_not_mem_ofText (s : String) : "" ∉ (Path.ofText s).parts := by
  intro h
  have hkept := (List.mem_filter.1 h).2
  simp at hkept

theorem empty_not_mem_linkBase {target : Path} {done : List String} (h : "" ∉ done) :
    "" ∉ linkBase target done := by
  unfold linkBase
  split
  · exact List.not_mem_nil
  · exact h

theorem empty_not_mem_resolveWith {follow : List String → List String → List String}
    (hfollow : ∀ done todo, "" ∉ done → "" ∉ todo → "" ∉ follow done todo)
    {done todo : List String} (hdone : "" ∉ done) (htodo : "" ∉ todo) :
    "" ∉ t.resolveWith follow done todo := by
  induction todo generalizing done with
  | nil => exact hdone
  | cons name rest ih =>
    obtain ⟨hname, hrest⟩ := not_or.1 (mt List.mem_cons.2 htodo)
    unfold resolveWith
    split
    · exact ih (fun h => hdone (List.dropLast_subset _ h)) hrest
    · split
      · next target htarget =>
        have hparts : "" ∉ target.parts := by
          unfold linkTarget? at htarget
          split at htarget
          · cases htarget
            exact empty_not_mem_ofText _
          · cases htarget
        refine hfollow _ _ (empty_not_mem_linkBase hdone) fun h => ?_
        exact (List.mem_append.1 h).elim hparts hrest
      · refine ih (fun h => ?_) hrest
        rcases List.mem_append.1 h with h | h
        · exact hdone h
        · exact hname (List.mem_singleton.1 h)

/-- Following links and double dots leads from names to names. -/
theorem empty_not_mem_resolveFrom (hops : Nat) {done todo : List String} (hdone : "" ∉ done)
    (htodo : "" ∉ todo) : "" ∉ t.resolveFrom hops done todo := by
  induction hops generalizing done todo with
  | zero =>
    unfold resolveFrom
    induction todo generalizing done with
    | nil => exact hdone
    | cons name rest ih =>
      obtain ⟨hname, hrest⟩ := not_or.1 (mt List.mem_cons.2 htodo)
      refine ih ?_ hrest
      dsimp only
      split
      · exact fun h => hdone (List.dropLast_subset _ h)
      · intro h
        rcases List.mem_append.1 h with h | h
        · exact hdone h
        · exact hname (List.mem_singleton.1 h)
  | succ hops ih => exact empty_not_mem_resolveWith (fun _ _ => ih) hdone htodo

theorem Named.resolve (ht : t.Named) {p : Path} (hp : "" ∉ p.parts) : "" ∉ (t.resolve p).parts := by
  refine empty_not_mem_resolveFrom maxHops ?_ hp
  unfold origin
  split
  · exact List.not_mem_nil
  · exact ht.workingDirectory

/-- What a walk meets stands somewhere in the tree. -/
theorem mem_keys_of_mem_walk {r : DiscoveryRule} {depth : Nat} {dir parts : List String}
    (h : parts ∈ t.walk r depth dir) : parts ∈ t.nodes.keys := by
  -- the root is a directory, and no walk meets a directory
  have hmem {n : FileNode} (hnode : t.node? parts = some n) (hn : n ≠ .directory) :
      parts ∈ t.nodes.keys := by
    refine mem_keys_of_node? ?_ hnode
    rintro rfl
    exact hn (Option.some.inj hnode).symm
  rcases listed_of_mem_walk h with ⟨_, _, hnode⟩ | ⟨⟨_, hnode⟩, -⟩
  · exact hmem hnode nofun
  · exact hmem hnode nofun

/-- What is discovered is given by names. -/
theorem Named.discover (ht : t.Named) {repository root : Path} {r : DiscoveryRule}
    {files : List Path} (h : t.discover repository root r = .ok files) :
    ∀ p ∈ files, "" ∉ p.parts := by
  intro p hp
  obtain ⟨patterns, parts, rfl, hwalked, -⟩ := mem_of_mem_discover h hp
  exact ht.names _ (mem_keys_of_mem_walk hwalked)

end FileTree

/-- A path without empty components is not written as the empty text. -/
theorem Path.text_relative_ne_empty {parts : List String} (h : "" ∉ parts) :
    (Path.relative parts).text ≠ "" := by
  cases parts with
  | nil => decide
  | cons name rest =>
    obtain ⟨hname, -⟩ := not_or.1 (mt List.mem_cons.2 h)
    change Path.joined (name :: rest) ≠ ""
    unfold Path.joined Text.join
    cases rest with
    | nil => simpa using Ne.symm hname
    | cons next rest =>
      rw [String.intercalate_cons_cons]
      intro hempty
      have hlist := congrArg String.toList hempty
      simp at hlist

namespace Survey

variable {x : Examiner} {t : FileTree} {repository : Path} {s : Survey}

/-- No unit of a tree with named entries has an empty path below the repository. -/
theorem Covers.relativePath_ne_empty (h : s.Covers x t repository) (ht : t.Named)
    {u : SourceUnit} (hu : u ∈ s.units) : u.relativePath t repository ≠ .ok "" := by
  obtain ⟨root, files, -, hfiles, hunits⟩ := h.found
  rw [hunits] at hu
  obtain ⟨file, hfile, rfl⟩ := List.mem_map.1 hu
  unfold Examiner.discover at hfiles
  obtain ⟨sources, -, hfiles⟩ := Outcome.bind_eq_ok.1 hfiles
  have hnames := ht.resolve (ht.discover hfiles file hfile)
  intro hempty
  unfold SourceUnit.relativePath at hempty
  split at hempty
  · next parts hparts =>
    refine Path.text_relative_ne_empty (fun hmem : "" ∈ parts => hnames ?_) (Except.ok.inj hempty)
    unfold Path.relativeTo? at hparts
    split at hparts
    · cases hparts
      exact List.mem_of_mem_drop hmem
    · cases hparts
  · cases hempty

/-- So every node of the survey's graph has a file that is not the empty text. -/
theorem Covers.sourceFile?_ne_empty (h : s.Covers x t repository) (ht : t.Named) (id : String) :
    s.graph.sourceFile? id ≠ some "" := by
  intro hfile
  obtain ⟨u, hu, -, hrelative⟩ := h.nodes.origin id "" hfile
  exact h.relativePath_ne_empty ht hu hrelative

end Survey

end CodeAtlas
