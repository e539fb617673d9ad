import CodeAtlas.Proofs.Run.Surveyed

/-!
# The units of a repository

A survey discovers source files, names the units that they are, and makes these the nodes of its
graph. This file says so of every language, and that the node of each unit has its own source
file and no links.
-/

namespace CodeAtlas

namespace FileTree

/-- The files are what has bytes. -/
theorem isFile_iff_exists_readBytes {t : FileTree} {p : Path} :
    t.isFile p = true ↔ ∃ content, t.readBytes p = .ok content := by
  unfold isFile target? readBytes
  cases t.locate p with
  | error kind => exact ⟨nofun, nofun⟩
  | ok parts =>
    dsimp only
    cases t.node? parts with
    | none => exact ⟨nofun, nofun⟩
    | some n =>
      cases n with
      | file content tree => exact ⟨fun _ => ⟨content, rfl⟩, fun _ => rfl⟩
      | directory => exact ⟨nofun, nofun⟩
      | link target => exact ⟨nofun, nofun⟩

theorem isFile_of_readBytes {t : FileTree} {p : Path} {content : ByteArray}
    (h : t.readBytes p = .ok content) : t.isFile p = true :=
  isFile_iff_exists_readBytes.2 ⟨content, h⟩

theorem isFile_of_read {t : FileTree} {p : Path} {f : SourceFile}
    (h : SourceFile.read t p = .ok f) : t.isFile p = true := by
  unfold SourceFile.read at h
  split at h
  · cases h
  · next hbytes => exact isFile_of_readBytes hbytes

end FileTree

namespace Survey

open Fallible

/-- Surveyed units as the nodes of a graph: no other nodes, every unit's node with its file, which
lies in the repository, and no links. Of several units with one identifier, it is the file of one
of them. -/
structure NodesAre (t : FileTree) (repository : Path) (units : List SourceUnit) (g : Graph) :
    Prop where
  contains : ∀ j, g.contains j = true ↔ j ∈ units.map (·.identifier)
  inside : ∀ u ∈ units, ∃ file, u.relativePath t repository = .ok file
  files : (units.map (·.identifier)).Nodup → ∀ u ∈ units,
    ∃ file, u.relativePath t repository = .ok file ∧ g.sourceFile? u.identifier = some file
  origin : ∀ j file, g.sourceFile? j = some file →
    ∃ u ∈ units, u.identifier = j ∧ u.relativePath t repository = .ok file
  unlinked : g.links = .empty

variable {t : FileTree} {repository : Path} {units : List SourceUnit} {g h : Graph}

theorem NodesAre.congr (hg : NodesAre t repository units g) (hnodes : h.nodes = g.nodes)
    (hlinks : h.links = g.links) : NodesAre t repository units h where
  contains j := by
    rw [Graph.contains_congr hnodes]
    exact hg.contains j
  inside := hg.inside
  files hnodup u hu := by
    rw [Graph.sourceFile?_congr hnodes]
    exact hg.files hnodup u hu
  origin j file h := by
    rw [Graph.sourceFile?_congr hnodes] at h
    exact hg.origin j file h
  unlinked := hlinks.trans hg.unlinked

theorem contains_addNode (g : Graph) (id file j : String) :
    (g.addNode id file).contains j = true ↔ g.contains j = true ∨ j = id := by
  unfold Graph.addNode
  by_cases hid : g.contains id = true
  · rw [if_pos hid]
    exact ⟨Or.inl, fun h => h.elim (fun hj => hj) fun hj => hj ▸ hid⟩
  · rw [if_neg hid]
    exact (Dict.contains_insert g.nodes id j file).trans or_comm

theorem sourceFile?_addNode (g : Graph) (id file j : String) :
    (g.addNode id file).sourceFile? j =
      if j = id ∧ ¬g.contains id = true then some file else g.sourceFile? j := by
  unfold Graph.addNode Graph.sourceFile?
  by_cases hid : g.contains id = true
  · rw [if_pos hid, if_neg fun h => h.2 hid]
  · rw [if_neg hid, Dict.get?_insert]
    by_cases hj : j = id
    · rw [if_pos hj, if_pos ⟨hj, hid⟩]
    · rw [if_neg hj, if_neg fun h => hj h.1]

theorem NodesAre.of_empty (t : FileTree) (repository : Path) :
    NodesAre t repository [] .empty where
  contains j := by simp [Graph.contains, Graph.empty, Dict.contains_empty]
  inside u hu := by cases hu
  files _ u hu := by cases hu
  origin j file h := by cases h
  unlinked := rfl

/-- One more unit becomes one more node. -/
theorem NodesAre.addNode (hg : NodesAre t repository units g) {u : SourceUnit} {file : String}
    (hfile : u.relativePath t repository = .ok file) :
    NodesAre t repository (units ++ [u]) (g.addNode u.identifier file) where
  contains j := by
    rw [contains_addNode, List.map_append, List.mem_append, hg.contains j, List.map_singleton,
      List.mem_singleton]
  inside v hv := by
    rcases List.mem_append.1 hv with hv | hv
    · exact hg.inside v hv
    · obtain rfl := List.mem_singleton.1 hv
      exact ⟨file, hfile⟩
  files hnodup v hv := by
    rw [List.map_append, List.nodup_append] at hnodup
    obtain ⟨hunits, -, hapart⟩ := hnodup
    have hnew : ∀ x ∈ units, x.identifier ≠ u.identifier := fun x hx =>
      hapart _ (List.mem_map_of_mem hx) _ (List.mem_map_of_mem (List.mem_singleton_self u))
    have hid : ¬g.contains u.identifier = true := fun h => by
      obtain ⟨x, hx, heq⟩ := List.mem_map.1 ((hg.contains _).1 h)
      exact hnew x hx heq
    rw [sourceFile?_addNode]
    rcases List.mem_append.1 hv with hv | hv
    · rw [if_neg fun h => hnew v hv h.1]
      exact hg.files hunits v hv
    · obtain rfl := List.mem_singleton.1 hv
      rw [if_pos ⟨rfl, hid⟩]
      exact ⟨file, hfile, rfl⟩
  origin j found h := by
    rw [sourceFile?_addNode] at h
    split at h
    · next hj =>
      cases h
      exact ⟨u, List.mem_append_right _ (List.mem_singleton_self u), hj.1.symm, hfile⟩
    · obtain ⟨v, hv, hid, hrelative⟩ := hg.origin j found h
      exact ⟨v, List.mem_append_left _ hv, hid, hrelative⟩
  unlinked := (Graph.links_addNode ..).trans hg.unlinked

/-- The nodes of a survey are its units. -/
theorem nodesAre_nodesOf (hrun : nodesOf t repository units = .ok g) :
    NodesAre t repository units g :=
  nodesOf_induction (.of_empty t repository) (fun _ _ _ _ hg hfile => hg.addNode hfile) hrun

/-- Dependencies that are added change the edges of a graph only. -/
theorem exists_addDependencies_eq (g : Graph) (id : String) (targets : List String) :
    ∃ outgoing incoming, addDependencies g id targets =
      { g with outgoing := outgoing, incoming := incoming } := by
  unfold addDependencies
  induction Text.sortedSet targets generalizing g with
  | nil => exact ⟨g.outgoing, g.incoming, rfl⟩
  | cons target rest ih =>
    obtain ⟨outgoing, incoming, h⟩ := ih (g.addDependency id target)
    obtain ⟨outgoing', incoming', h'⟩ := g.exists_addDependency_eq id target
    rw [h'] at h
    refine ⟨outgoing, incoming, ?_⟩
    rw [List.foldl_cons, h', h]

/-- A survey of the source files that an examiner discovers: they are its units, and these the
nodes of its graph. -/
structure Covers (e : Examiner) (t : FileTree) (repository : Path) (s : Survey) : Prop where
  found : ∃ root files, e.sourceRoot (.ofFiles t) repository = .ok root ∧
    e.discover (.ofFiles t) repository = .ok files ∧ s.units = unitsOf e t root files
  nodes : NodesAre t repository s.units s.graph

/-- A survey finds the units of a repository and makes them the nodes of a graph. -/
theorem ensures_take_covers (e : Examiner) (t : FileTree) (repository : Path) :
    Ensures (Covers e t repository) (take e t repository) := by
  refine (ensures_take_induction (P := NodesAre t repository) e (.of_empty t repository)
    (fun _ _ _ _ hg hfile => hg.addNode hfile) (fun _ _ _ _ hg => ?_) fun _ _ _ hg => ?_).mono
    fun s hs => ⟨hs.1, hs.2⟩
  · exact hg.congr (Graph.nodes_addDependency ..) (Graph.links_addDependency ..)
  · exact hg.congr (Graph.nodes_markEntryPoint ..) (Graph.links_markEntryPoint ..)

end Survey

end CodeAtlas
