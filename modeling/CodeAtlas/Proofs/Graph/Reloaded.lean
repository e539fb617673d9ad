import CodeAtlas.Graph.Basic
import CodeAtlas.Proofs.Graph.Filled

/-!
# Graphs written and read again

A graph that changes have made is written and read again. The graph that is read gives the
same answers about nodes, edges, marks, labels, methods and their order of examination. The
one thing that writing keeps and reading drops is a method whose links have all been taken
away by removing the nodes they led to: the texts of the two graphs differ exactly when
there is such a method.
-/

namespace CodeAtlas.Graph

variable {ι τ ν η π : Type} [DecidableEq ι]

/-- Graphs that answer alike about nodes, edges, marks, labels and methods. -/
structure AnswersAlike (g h : Graph ι τ ν η π) : Prop where
  identifiers : h.identifiers = g.identifiers
  sourceFile? : ∀ id, h.sourceFile? id = g.sourceFile? id
  edgeList : h.edgeList = g.edgeList
  dependencies : ∀ id, h.dependencies id = g.dependencies id
  entryPoints : h.entryPoints = g.entryPoints
  classId? : ∀ id, h.classId? id = g.classId? id
  nodeInfo? : ∀ id, h.nodeInfo? id = g.nodeInfo? id
  methodsOf : ∀ id, h.methodsOf id = g.methodsOf id
  endpoints : h.endpoints = g.endpoints
  analysisOrder : h.analysisOrder = g.analysisOrder

/-! ## The order of examination -/

/-- Visiting depends on the dependencies alone. -/
theorem visitPending_congr {g h : Graph ι τ ν η π}
    (hdeps : ∀ id, h.dependencies id = g.dependencies id)
    (bound : Nat) (seen pending : List ι) :
    h.visitPending bound seen pending = g.visitPending bound seen pending := by
  induction bound generalizing seen pending with
  | zero => rfl
  | succ bound ih =>
    cases pending with
    | nil => rfl
    | cons current pending => rw [visitPending, visitPending, hdeps, ih]

theorem analysisOrder_congr {g h : Graph ι τ ν η π} (hids : h.identifiers = g.identifiers)
    (hdeps : ∀ id, h.dependencies id = g.dependencies id) (hmarks : h.entryPoints = g.entryPoints)
    (hcount : h.edgeCount = g.edgeCount) : h.analysisOrder = g.analysisOrder := by
  have hreached : h.reachedOrder = g.reachedOrder := by
    rw [reachedOrder, reachedOrder, hmarks, hcount, visitPending_congr hdeps]
  rw [analysisOrder, analysisOrder, hreached, hids]

/-! ## What is read again -/

namespace Reread

variable {g h : Graph ι τ ν η π}

theorem identifiers (hr : Reread g h) : h.identifiers = g.identifiers := by
  unfold Graph.identifiers
  rw [hr.nodes]

theorem edgeList (hr : Reread g h) : h.edgeList = g.edgeList := by
  unfold Graph.edgeList
  simp only [hr.identifiers, hr.dependencies]

/-- A graph that was read again answers as before. -/
theorem answersAlike [DecidableEq τ] [SelfEqual ι] (hr : Reread g h) (hg : g.WellFormed)
    (hh : h.WellFormed) :
    AnswersAlike g h where
  identifiers := hr.identifiers
  sourceFile? := sourceFile?_congr hr.nodes
  edgeList := hr.edgeList
  dependencies := hr.dependencies
  entryPoints := hr.entryPoints
  classId? := hr.classId?
  nodeInfo? := hr.nodeInfo?
  methodsOf := methodsOf_congr hr.methods
  endpoints := by
    unfold Graph.endpoints
    simp only [hr.identifiers, methodsOf_congr hr.methods]
  analysisOrder := by
    refine analysisOrder_congr hr.identifiers hr.dependencies hr.entryPoints ?_
    rw [edgeCount_eq_length_edgeList hh.nodes_nodup hh.edges,
      edgeCount_eq_length_edgeList hg.nodes_nodup hg.edges, hr.edgeList]

end Reread

/-! ## Links -/

section Links

variable [DecidableEq τ] [SelfEqual ι] {g h : Graph ι τ ν η π}

theorem Reread.linksOf (hr : Reread g h) (hg : g.WellFormed) (id : ι) :
    h.linksOf id = filledGroups (g.linksOf id) := by
  rw [← hg.getD_filledLinks, ← hr.links]
  rfl

/-- The links of all nodes are as before exactly if every listed method has some. -/
theorem Reread.linksOf_eq_iff (hr : Reread g h) (hg : g.WellFormed) :
    (∀ id, h.linksOf id = g.linksOf id) ↔ g.Filled := by
  simp only [hr.linksOf hg, filledGroups_eq_self_iff]
  rfl

end Links

end CodeAtlas.Graph

namespace CodeAtlas

/-! ## What is written again -/

namespace SpelledGraph

variable {ι τ ν η π : Type} [DecidableEq ι] [DecidableEq τ] [DecidableEq π] [SelfEqual ι]
  [Wording τ] [Coded ι τ] [Coded ν τ] [Coded η τ] [Coded π τ] {d d' : SpelledGraph ι τ ν η π}

/-- What is written of a graph that was read again is written of the first one, once what is
empty is left out. -/
theorem toJson_of_reread (hr : d.graph.Reread d'.graph) (hwf : d'.graph.WellFormed)
    (hspelled : ∀ p, d'.graph.Keeps p → d'.spelling p = d.spelling p) :
    d'.toJson = toJson ⟨{ d.graph with links := d.graph.filledLinks }, d.spellings⟩ := by
  have hnode (e : ι × ν) (he : e ∈ d'.graph.nodes.toList) :
      d'.nodeJson e.1 e.2 = d.nodeJson e.1 e.2 := by
    have hkeeps : d'.graph.Keeps (.node e.1) :=
      (Dict.contains_iff_mem_keys _ _).2 (List.mem_map_of_mem he)
    unfold nodeJson Graph.isEntryPoint
    rw [hspelled _ hkeeps, hr.classId?, hr.nodeInfo?, hr.entryPoints]
  have hedge (e : ι × ι) (he : e ∈ d'.graph.edgeList) : d'.edgeJson e = d.edgeJson e := by
    have hb : e.2 ∈ d'.graph.dependencies e.1 := (Graph.mem_edgeList.1 he).2
    rw [edgeJson, hspelled (.node e.1) (hwf.edges.ends e.1 e.2 hb).1,
      hspelled (.edge e.1 e.2) hb]
    rfl
  have hlinks (e : ι × Dict τ (List (ParameterLink ι τ π))) (he : e ∈ d'.graph.links.toList) :
      d'.linksJson e.1 e.2 = d.linksJson e.1 e.2 := by
    obtain ⟨id, byMethod⟩ := e
    refine congrArg Json.object (List.map_congr_left fun m hm => ?_)
    refine congrArg (fun items => (m.1, Json.array items)) (List.map_congr_left fun l hl => ?_)
    have hkeeps := hwf.keeps_linkPosition he hm hl
    rw [linkJson, hspelled (.linkPosition id l) hkeeps, hspelled (.linkTarget id l) hkeeps]
    rfl
  unfold toJson
  rw [List.map_congr_left hnode, List.map_congr_left hedge,
    List.map_congr_left fun id hid => hspelled (.entryPoint id) hid,
    List.map_congr_left fun e he => congrArg (Prod.mk _) (hlinks e he)]
  simp only [hr.nodes, hr.edgeList, hr.entryPoints, hr.methods, hr.links]
  rfl

/-- A graph is read again from its text as it was rebuilt, spelled as it was written. -/
theorem Sound.ofText_toText [DecidableEq ν] [Keyable ν] [LawfulWording τ] [LawfulIdentifier ι]
    [LawfulCoded ν] [LawfulCoded η] (hd : d.Sound) (hg : d.graph.WellFormed) :
    ∃ d', ofText d.toText = .ok d' ∧ d.graph.Reread d'.graph ∧ d'.graph.WellFormed ∧
      d'.toJson = toJson ⟨{ d.graph with links := d.graph.filledLinks }, d.spellings⟩ := by
  obtain ⟨ms, hread, hspelled⟩ := hd.ofJson_toJson hg
  have hwf : d.graph.rebuilt.WellFormed := .of_ofJson hread
  refine ⟨⟨d.graph.rebuilt, ms⟩, ?_, hg.reread_rebuilt, hwf, ?_⟩
  · rw [ofText, toText, (hd.plain_toJson hg).readAs_pretty]
    exact hread
  · refine toJson_of_reread hg.reread_rebuilt hwf fun p hp => ?_
    obtain ⟨v, hv⟩ := covered_of_ofJson hread p hp
    obtain ⟨w, hw⟩ := Dict.exists_lookup_of_mem hv
    rw [spelling, hw]
    exact hspelled (p, w) (Dict.mem_of_lookup hw)

omit [SelfEqual ι] [Coded ν τ] [Coded η τ] in
/-- What is left once empty groups are left out is written in another way than what has one. -/
theorem linksJson_ne {g : Graph ι τ ν η π} {e : ι × Dict τ (List (ParameterLink ι τ π))}
    (he : e ∈ g.filledLinks.toList) {owner : ι} {byMethod : Dict τ (List (ParameterLink ι τ π))}
    {name : τ} (hgroup : (name, []) ∈ byMethod.entries) :
    d.linksJson e.1 e.2 ≠ d'.linksJson owner byMethod := by
  obtain ⟨old, -, rfl⟩ := List.mem_map.1 (List.mem_filter.1 he).1
  intro heq
  have hmap := Json.object.inj heq
  have hwritten := List.mem_map_of_mem
    (f := fun m : τ × List (ParameterLink ι τ π) =>
      (m.1, Json.array (m.2.map (d'.linkJson owner)))) hgroup
  change _ ∈ byMethod.toList.map _ at hwritten
  rw [← hmap] at hwritten
  obtain ⟨m, hm, hmeq⟩ := List.mem_map.1 hwritten
  have hnone : m.2 = [] := List.map_eq_nil_iff.1 (Json.array.inj (Prod.mk.inj hmeq).2)
  have hsome : (!m.2.isEmpty) = true := (List.mem_filter.1 hm).2
  rw [hnone] at hsome
  cases hsome

end SpelledGraph

namespace Graph

/-! ## Graphs of texts -/

namespace Reread

variable {g h : Graph}

theorem toJson (hr : Reread g h) (hh : h.WellFormed) :
    h.toJson = Graph.toJson { g with links := g.filledLinks } := by
  let d : SpelledGraph := ⟨g, []⟩
  let d' : SpelledGraph := ⟨h, []⟩
  have hread : d.graph.Reread d'.graph := hr
  exact SpelledGraph.toJson_of_reread hread hh fun _ _ => rfl

/-- No listed method is without links in a graph that is written as it was read. -/
theorem filled_of_toText_eq (hr : Reread g h) (hg : g.WellFormed) (hh : h.WellFormed)
    (htext : h.toText = g.toText) : g.Filled := by
  have hjson : h.toJson = g.toJson := by
    have hread : Json.read h.toText = .ok h.toJson := hh.plain_toJson.read_pretty
    rw [htext] at hread
    exact Except.ok.inj (hread.symm.trans hg.plain_toJson.read_pretty)
  have hlinks := congrArg (Json.field? · "methodParameters") hjson
  rw [Graph.toJson, Graph.toJson, (SpelledGraph.field?_toJson _).2.2.2.2,
    (SpelledGraph.field?_toJson _).2.2.2.2] at hlinks
  have hlinks := Json.object.inj (Option.some.inj hlinks)
  -- a group without links would be written, and what was read has none
  rintro id ls hls rfl
  obtain ⟨⟨name, -⟩, hgroup, rfl⟩ := List.mem_map.1 hls
  cases hd : g.links.get? id with
  | none =>
    rw [Graph.linksOf, Dict.getD_of_get?_eq_none _ hd] at hgroup
    cases hgroup
  | some d =>
    rw [Graph.linksOf, Dict.getD_of_get?_eq_some _ hd] at hgroup
    have hentry : (id, d) ∈ g.links.toList :=
      (Dict.mem_entries_iff hg.links.owners.nodup id d).2 hd
    have hwritten := List.mem_map_of_mem
      (f := fun e => (SpelledGraph.fieldName (Coded.toJson e.1),
        SpelledGraph.linksJson ⟨g, []⟩ e.1 e.2)) hentry
    rw [← hlinks] at hwritten
    obtain ⟨e, he, heq⟩ := List.mem_map.1 hwritten
    rw [hr.links] at he
    exact absurd (Prod.mk.inj heq).2 (SpelledGraph.linksJson_ne he hgroup)

/-- The texts before and after are the same exactly if every listed method has links. -/
theorem toText_eq_iff (hr : Reread g h) (hg : g.WellFormed) (hh : h.WellFormed) (ho : g.Owned) :
    h.toText = g.toText ↔ g.Filled := by
  refine ⟨hr.filled_of_toText_eq hg hh, fun hf => ?_⟩
  have hjson := hr.toJson hh
  rw [hf.filledLinks hg ho] at hjson
  exact congrArg Json.pretty hjson

end Reread

/-- The text of a well-formed graph is read as a graph that is as it was rebuilt. -/
theorem WellFormed.ofText_toText {g : Graph} (hg : g.WellFormed) :
    ∃ h, ofText g.toText = .ok h ∧ Reread g h ∧ h.WellFormed := by
  obtain ⟨d, hd, hr, hh, -⟩ := g.sound.ofText_toText hg
  refine ⟨d.graph, ?_, hr, hh⟩
  unfold SpelledGraph.ofText at hd
  obtain ⟨v, hv, hd⟩ := Outcome.bind_eq_ok.1 hd
  refine Outcome.bind_eq_ok.2 ⟨v, hv, ?_⟩
  rw [ofJson, hd]
  rfl

/-- A graph that changes make of the empty graph is read again from its text, whatever the
changes. The graph that is read gives the same answers. It lists the methods that have links,
so its text and its links are the same exactly if no method is listed that has lost all of its. -/
theorem reread_of_changes (changes : List Mutation) :
    let g := Mutation.applyAll changes .empty
    ∃ h, ofText g.toText = .ok h ∧ AnswersAlike g h ∧
      (∀ id, h.linksOf id = filledGroups (g.linksOf id)) ∧
      (h.toText = g.toText ↔ g.Filled) ∧
      ((∀ id, h.linksOf id = g.linksOf id) ↔ g.Filled) := by
  intro g
  have hg : g.WellFormed := .applyAll .of_empty changes
  have ho : g.Owned := owned_of_changes changes
  obtain ⟨h, hread, hr, hh⟩ := hg.ofText_toText
  exact ⟨h, hread, hr.answersAlike hg hh, hr.linksOf hg, hr.toText_eq_iff hg hh ho,
    hr.linksOf_eq_iff hg⟩

/-- A method takes a parameter of another node, and that node is removed. -/
def emptyingChanges : List Mutation :=
  [.addNode "A" "a.java", .addNode "B" "b.java", .addMethodParameter "A" "m" 0 "B",
    .removeNode "B"]

/-- A method that has lost its only link is written, and it is not read again. -/
theorem text_changed_by_emptying :
    (Mutation.applyAll emptyingChanges .empty).linksOf "A" = ⟨[("m", [])]⟩ ∧
      ∃ h, ofText (Mutation.applyAll emptyingChanges .empty).toText = .ok h ∧
        h.linksOf "A" = .empty ∧
        h.toText ≠ (Mutation.applyAll emptyingChanges .empty).toText := by
  have hlinks : (Mutation.applyAll emptyingChanges .empty).linksOf "A" = ⟨[("m", [])]⟩ := by
    decide
  have hg : (Mutation.applyAll emptyingChanges .empty).WellFormed := .applyAll .of_empty _
  obtain ⟨h, hread, hr, hh⟩ := hg.ofText_toText
  refine ⟨hlinks, h, hread, ?_, fun htext => ?_⟩
  · rw [hr.linksOf hg, hlinks]
    rfl
  · have hfilled := hr.filled_of_toText_eq hg hh htext "A"
    rw [hlinks] at hfilled
    exact hfilled [] (List.mem_singleton.2 rfl) rfl

end Graph

end CodeAtlas
