import CodeAtlas.Graph.Basic

/-!
# Labels and links of nodes

Entry points, records, kinds, methods and links are kept apart from the nodes they belong to.
This file proves that the operations keep all of them within the nodes; removing a node also
removes the links that other nodes have to it.
-/

namespace CodeAtlas

/-- The keys of a dictionary are distinct and are keys of another one as well. -/
structure Dict.KeysWithin {α β γ : Type} [DecidableEq α] (d : Dict α β) (e : Dict α γ) : Prop where
  nodup : d.keys.Nodup
  contained : ∀ k, d.contains k = true → e.contains k = true

namespace Dict.KeysWithin

variable {α β γ δ : Type} [DecidableEq α] {d : Dict α β} {e : Dict α γ}

/-- The empty dictionary has no keys that could be missing elsewhere. -/
theorem of_empty : (Dict.empty : Dict α β).KeysWithin e :=
  ⟨List.nodup_nil, fun k h => by simp [contains_empty] at h⟩

/-- A value may be stored under any key of the other dictionary. -/
theorem insert (h : d.KeysWithin e) {k : α} (hk : e.contains k = true) (b : β) :
    (d.insert k b).KeysWithin e := by
  refine ⟨nodup_keys_insert h.nodup k b, fun j hj => ?_⟩
  rcases (contains_insert d k j b).1 hj with rfl | hj
  · exact hk
  · exact h.contained j hj

/-- Keys may be removed. -/
theorem erase (h : d.KeysWithin e) (k : α) : (d.erase k).KeysWithin e :=
  ⟨nodup_keys_erase h.nodup k, fun j hj => h.contained j ((contains_erase d k j).1 hj).2⟩

/-- A key may leave both dictionaries. -/
theorem erase_both (h : d.KeysWithin e) (k : α) : (d.erase k).KeysWithin (e.erase k) := by
  refine ⟨nodup_keys_erase h.nodup k, fun j hj => ?_⟩
  obtain ⟨hne, hj⟩ := (contains_erase d k j).1 hj
  exact (contains_erase e k j).2 ⟨hne, h.contained j hj⟩

/-- The other dictionary may gain keys. -/
theorem insert_right (h : d.KeysWithin e) (k : α) (c : γ) : d.KeysWithin (e.insert k c) :=
  ⟨h.nodup, fun j hj => (contains_insert e k j c).2 (Or.inr (h.contained j hj))⟩

/-- Values may change. -/
theorem mapValues (h : d.KeysWithin e) (f : α → β → δ) : (d.mapValues f).KeysWithin e :=
  ⟨by simpa using h.nodup, fun j hj => h.contained j (by rwa [contains_mapValues] at hj)⟩

end Dict.KeysWithin

namespace Graph

variable {ι τ ν η π : Type} [DecidableEq ι]

/-- What is known about nodes is known about nodes of the graph. -/
structure LabelsWithin (g : Graph ι τ ν η π) : Prop where
  entryPoints_nodup : g.entryPoints.Nodup
  entryPoints : ∀ id ∈ g.entryPoints, g.contains id = true
  classIds : g.classIds.KeysWithin g.nodes
  info : g.info.KeysWithin g.nodes
  methods : g.methods.KeysWithin g.nodes

/-! ## Labels -/

/-- Only nodes and labels matter. -/
theorem LabelsWithin.congr {g h : Graph ι τ ν η π} (hg : g.LabelsWithin)
    (hnodes : h.nodes = g.nodes)
    (hentries : h.entryPoints = g.entryPoints) (hids : h.classIds = g.classIds)
    (hinfo : h.info = g.info) (hmethods : h.methods = g.methods) : h.LabelsWithin := by
  obtain ⟨h1, h2, h3, h4, h5⟩ := hg
  constructor <;> simpa only [contains, hnodes, hentries, hids, hinfo, hmethods]

/-- A new node takes no label away. -/
theorem LabelsWithin.addNode {g : Graph ι τ ν η π} (hg : g.LabelsWithin) (id : ι) (file : ν) :
    (g.addNode id file).LabelsWithin := by
  unfold Graph.addNode
  split
  · exact hg
  · exact ⟨hg.entryPoints_nodup,
      fun e he => (Dict.contains_insert g.nodes id e file).2 (Or.inr (hg.entryPoints e he)),
      hg.classIds.insert_right id file, hg.info.insert_right id file,
      hg.methods.insert_right id file⟩

/-- A removed node takes its labels along. -/
theorem LabelsWithin.removeNode {g : Graph ι τ ν η π} (hg : g.LabelsWithin) (id : ι) :
    (g.removeNode id).LabelsWithin := by
  unfold Graph.removeNode
  split
  · refine ⟨hg.entryPoints_nodup.filter _, fun e he => ?_, hg.classIds.erase_both id,
      hg.info.erase_both id, hg.methods.erase_both id⟩
    obtain ⟨he, hne⟩ := List.mem_filter.1 he
    exact (Dict.contains_erase g.nodes id e).2 ⟨by simpa using hne, hg.entryPoints e he⟩
  · exact hg

/-- Only nodes are marked. -/
theorem LabelsWithin.markEntryPoint {g : Graph ι τ ν η π} (hg : g.LabelsWithin) (id : ι) :
    (g.markEntryPoint id).LabelsWithin := by
  unfold Graph.markEntryPoint
  split
  · next hid =>
    refine ⟨nodup_appendNew hg.entryPoints_nodup id, fun e he => ?_, hg.classIds, hg.info,
      hg.methods⟩
    rcases mem_appendNew.1 he with he | rfl
    · exact hg.entryPoints e he
    · exact hid
  · exact hg

/-! ## Links -/

variable [DecidableEq τ]

/-- The links of one node: each is listed once, under its own method, and leads to a node. -/
structure LinksOfNode (nodes : Dict ι ν) (d : Dict τ (List (ParameterLink ι τ π))) :
    Prop where
  nodup : d.keys.Nodup
  links_nodup : ∀ name ls, d.get? name = some ls → ls.Nodup
  named : ∀ name ls, d.get? name = some ls → ∀ l ∈ ls, l.methodName = name
  targets : ∀ name ls, d.get? name = some ls → ∀ l ∈ ls, nodes.contains l.target = true

/-- Links belong to nodes and lead to nodes. -/
structure LinksWithin (g : Graph ι τ ν η π) : Prop where
  owners : g.links.KeysWithin g.nodes
  ofNode : ∀ id d, g.links.get? id = some d → LinksOfNode g.nodes d

/-- Only nodes and links matter. -/
theorem LinksWithin.congr {g h : Graph ι τ ν η π} (hg : g.LinksWithin) (hnodes : h.nodes = g.nodes)
    (hlinks : h.links = g.links) : h.LinksWithin := by
  obtain ⟨howners, hnode⟩ := hg
  exact ⟨by rwa [hnodes, hlinks], fun id d hd => by
    rw [hnodes]
    exact hnode id d (by rwa [hlinks] at hd)⟩

theorem LinksOfNode.of_empty (nodes : Dict ι ν) :
    LinksOfNode nodes (.empty : Dict τ (List (ParameterLink ι τ π))) := by
  constructor <;> simp

/-- The links of any node, also of one without an entry. -/
theorem LinksWithin.linksOf {g : Graph ι τ ν η π} (hg : g.LinksWithin) (id : ι) :
    LinksOfNode g.nodes (g.linksOf id) := by
  unfold Graph.linksOf
  cases hd : g.links.get? id with
  | none =>
    rw [Dict.getD_of_get?_eq_none _ hd]
    exact .of_empty g.nodes
  | some d =>
    rw [Dict.getD_of_get?_eq_some _ hd]
    exact hg.ofNode id d hd

/-- A new node takes no link away. -/
theorem LinksWithin.addNode {g : Graph ι τ ν η π} (hg : g.LinksWithin) (id : ι) (file : ν) :
    (g.addNode id file).LinksWithin := by
  unfold Graph.addNode
  split
  · exact hg
  · refine ⟨hg.owners.insert_right id file, fun owner d hd => ?_⟩
    obtain ⟨h1, h2, h3, h4⟩ := hg.ofNode owner d hd
    exact ⟨h1, h2, h3, fun name ls hls l hl =>
      (Dict.contains_insert g.nodes id l.target file).2 (Or.inr (h4 name ls hls l hl))⟩

/-- The links that do not lead to a removed node lead to nodes that stay. -/
theorem LinksOfNode.dropLinksTo {nodes : Dict ι ν}
    {d : Dict τ (List (ParameterLink ι τ π))} (h : LinksOfNode nodes d) (id : ι) :
    LinksOfNode (nodes.erase id) (Graph.dropLinksTo id d) := by
  have hfound (name : τ) (ls : List (ParameterLink ι τ π))
      (hls : (Graph.dropLinksTo id d).get? name = some ls) :
      ∃ old, d.get? name = some old ∧ ls = old.filter fun l => l.target ≠ id := by
    simp only [Graph.dropLinksTo, Dict.get?_mapValues, Option.map_eq_some_iff] at hls
    obtain ⟨old, hold, rfl⟩ := hls
    exact ⟨old, hold, rfl⟩
  refine ⟨by simpa [Graph.dropLinksTo] using h.nodup, fun name ls hls => ?_,
    fun name ls hls l hl => ?_, fun name ls hls l hl => ?_⟩
  · obtain ⟨old, hold, rfl⟩ := hfound name ls hls
    exact (h.links_nodup name old hold).filter _
  · obtain ⟨old, hold, rfl⟩ := hfound name ls hls
    exact h.named name old hold l (List.mem_filter.1 hl).1
  · obtain ⟨old, hold, rfl⟩ := hfound name ls hls
    obtain ⟨hmem, hne⟩ := List.mem_filter.1 hl
    exact (Dict.contains_erase nodes id l.target).2
      ⟨by simpa using hne, h.targets name old hold l hmem⟩

/-- A removed node takes along its own links and those that lead to it. -/
theorem LinksWithin.removeNode {g : Graph ι τ ν η π} (hg : g.LinksWithin) (id : ι) :
    (g.removeNode id).LinksWithin := by
  unfold Graph.removeNode
  split
  · have howners := (hg.owners.erase_both id).mapValues
      fun _ byMethod => Graph.dropLinksTo id byMethod
    refine ⟨howners, fun owner d hd => ?_⟩
    simp only [Dict.get?_mapValues, Dict.get?_erase, Option.map_eq_some_iff] at hd
    obtain ⟨old, hold, rfl⟩ := hd
    split at hold
    · cases hold
    · exact (hg.ofNode owner old hold).dropLinksTo id
  · exact hg

/-- One more link under its own method to a node. -/
theorem LinksOfNode.insert [DecidableEq π] {nodes : Dict ι ν}
    {d : Dict τ (List (ParameterLink ι τ π))}
    (h : LinksOfNode nodes d) (name : τ) (position : π) {target : ι}
    (htarget : nodes.contains target = true) :
    LinksOfNode nodes (d.insert name (appendNew (d.getD name []) ⟨name, position, target⟩)) := by
  have hold : ∀ l ∈ d.getD name [], l.methodName = name ∧ nodes.contains l.target = true := by
    intro l hl
    cases hd : d.get? name with
    | none => simp [Dict.getD_of_get?_eq_none _ hd] at hl
    | some ls =>
      rw [Dict.getD_of_get?_eq_some _ hd] at hl
      exact ⟨h.named name ls hd l hl, h.targets name ls hd l hl⟩
  have hnodup : (d.getD name []).Nodup := by
    cases hd : d.get? name with
    | none => simp [Dict.getD_of_get?_eq_none _ hd]
    | some ls => simpa [Dict.getD_of_get?_eq_some _ hd] using h.links_nodup name ls hd
  have hnew : ∀ l ∈ appendNew (d.getD name []) ⟨name, position, target⟩,
      l.methodName = name ∧ nodes.contains l.target = true := by
    intro l hl
    rcases mem_appendNew.1 hl with hl | rfl
    · exact hold l hl
    · exact ⟨rfl, htarget⟩
  refine ⟨Dict.nodup_keys_insert h.nodup _ _, fun other ls hls => ?_,
    fun other ls hls l hl => ?_, fun other ls hls l hl => ?_⟩
  all_goals
    rw [Dict.get?_insert] at hls
    split at hls
  · cases hls
    exact nodup_appendNew hnodup _
  · exact h.links_nodup other ls hls
  · next heq =>
    cases hls
    rw [heq]
    exact (hnew l hl).1
  · exact h.named other ls hls l hl
  · cases hls
    exact (hnew l hl).2
  · exact h.targets other ls hls l hl

/-- Only links between nodes are recorded. -/
theorem LinksWithin.addMethodParameter [DecidableEq π] {g : Graph ι τ ν η π} (hg : g.LinksWithin)
    (id : ι) (name : τ) (position : π) (target : ι) :
    (g.addMethodParameter id name position target).LinksWithin := by
  unfold Graph.addMethodParameter
  split
  · exact hg
  · next hnodes =>
    obtain ⟨hid, htarget⟩ : g.contains id = true ∧ g.contains target = true := by
      simpa using hnodes
    refine ⟨hg.owners.insert hid _, fun owner d hd => ?_⟩
    rw [Dict.get?_insert] at hd
    split at hd
    · cases hd
      exact (hg.linksOf id).insert name position htarget
    · exact hg.ofNode owner d hd

/-- Links may be forgotten. -/
theorem LinksWithin.clearMethodParameters {g : Graph ι τ ν η π} (hg : g.LinksWithin) (id : ι) :
    (g.clearMethodParameters id).LinksWithin := by
  refine ⟨hg.owners.erase id, fun owner d hd => ?_⟩
  simp only [Graph.clearMethodParameters, Dict.get?_erase] at hd
  split at hd
  · cases hd
  · exact hg.ofNode owner d hd

end Graph

end CodeAtlas
