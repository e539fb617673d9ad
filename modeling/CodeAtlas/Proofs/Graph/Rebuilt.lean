import CodeAtlas.Proofs.Graph.Answers
import CodeAtlas.Proofs.Graph.Relabel
import CodeAtlas.Proofs.Graph.Written

/-!
# Graphs rebuilt from what was written

Adding to the empty graph what is written of a well-formed graph gives nearly that graph again:
its nodes with their labels, its edges, marks, methods and links. Two things are lost. The
dependents of a node come in the order of the nodes, not in that in which the edges were
added, because edges are written node by node. And methods whose links have all been taken
away are no longer listed.
-/

namespace CodeAtlas.Graph

variable {ι τ ν η π : Type} [DecidableEq ι]

/-! ## Nodes and their labels -/

/-- Labelling a node changes its record, its kind and its description. -/
theorem labelAs_eq {h : Graph ι τ ν η π} (g : Graph ι τ ν η π) {id : ι}
    (hid : h.contains id = true) :
    h.labelAs g id =
      { h with
        classIds :=
          match g.classId? id with
          | some c => h.classIds.insert id c
          | none => h.classIds
        info :=
          match g.nodeInfo? id with
          | some i => h.info.insert id i
          | none => h.info } := by
  unfold labelAs
  cases g.classId? id with
  | none =>
    cases g.nodeInfo? id with
    | none => rfl
    | some i => simp [setNodeInfo, hid]
  | some c =>
    have hbound : (h.bindClassId id c).contains id = true :=
      (contains_congr (nodes_bindClassId h id c) id).trans hid
    cases g.nodeInfo? id with
    | none => simp [bindClassId, hid]
    | some i =>
      simp only [setNodeInfo, hbound, if_true]
      simp [bindClassId, hid]

/-- Nodes that are added and labelled as in another graph. -/
structure NodesFrom (g : Graph ι τ ν η π) (es : List (ι × ν)) (h h' : Graph ι τ ν η π) : Prop where
  nodes : h'.nodes.entries = h.nodes.entries ++ es
  classId? : ∀ id, h'.classId? id =
    if id ∈ es.map (·.1) then (g.classId? id).or (h.classId? id) else h.classId? id
  nodeInfo? : ∀ id, h'.nodeInfo? id =
    if id ∈ es.map (·.1) then (g.nodeInfo? id).or (h.nodeInfo? id) else h.nodeInfo? id
  rest : h' = { h with nodes := h'.nodes, classIds := h'.classIds, info := h'.info }

/-- A new node is added at the end and labelled. -/
theorem nodesFrom_singleton (g : Graph ι τ ν η π) {h : Graph ι τ ν η π} {e : ι × ν}
    (hnew : e.1 ∉ h.nodes.keys) : NodesFrom g [e] h ((h.addNode e.1 e.2).labelAs g e.1) := by
  have hunknown : ¬h.contains e.1 = true := fun hc =>
    hnew ((Dict.contains_iff_mem_keys _ e.1).1 hc)
  have hadd : h.addNode e.1 e.2 = { h with nodes := h.nodes.insert e.1 e.2 } := if_neg hunknown
  have hid : (h.addNode e.1 e.2).contains e.1 = true := by
    rw [hadd]
    exact (Dict.contains_insert h.nodes e.1 e.1 e.2).2 (Or.inl rfl)
  rw [labelAs_eq g hid, hadd]
  constructor
  · exact Dict.entries_insert_of_new hnew e.2
  · intro id
    cases hclass : g.classId? e.1 with
    | none =>
      by_cases heq : id = e.1
      · simp [classId?, heq, show g.classIds.get? e.1 = none from hclass]
      · simp [classId?, heq]
    | some c =>
      by_cases heq : id = e.1
      · simp [classId?, Dict.get?_insert, heq, show g.classIds.get? e.1 = some c from hclass]
      · simp [classId?, Dict.get?_insert, heq]
  · intro id
    cases hinfo : g.nodeInfo? e.1 with
    | none =>
      by_cases heq : id = e.1
      · simp [nodeInfo?, heq, show g.info.get? e.1 = none from hinfo]
      · simp [nodeInfo?, heq]
    | some i =>
      by_cases heq : id = e.1
      · simp [nodeInfo?, Dict.get?_insert, heq, show g.info.get? e.1 = some i from hinfo]
      · simp [nodeInfo?, Dict.get?_insert, heq]
  · rfl

/-- What labels of some nodes and then of others come to. -/
theorem or_of_mem_append {β : Type} {xs ys : List ι} {id : ι} {own old : Option β} :
    (if id ∈ ys then own.or (if id ∈ xs then own.or old else old)
      else if id ∈ xs then own.or old else old) =
      if id ∈ xs ++ ys then own.or old else old := by
  by_cases hx : id ∈ xs <;> by_cases hy : id ∈ ys <;> cases own <;> simp [hx, hy]

theorem NodesFrom.append {g h h' h'' : Graph ι τ ν η π} {xs ys : List (ι × ν)}
    (hxs : NodesFrom g xs h h') (hys : NodesFrom g ys h' h'') :
    NodesFrom g (xs ++ ys) h h'' where
  nodes := by rw [hys.nodes, hxs.nodes, List.append_assoc]
  classId? id := by rw [hys.classId?, hxs.classId?, List.map_append, or_of_mem_append]
  nodeInfo? id := by rw [hys.nodeInfo?, hxs.nodeInfo?, List.map_append, or_of_mem_append]
  rest := by
    rw [hys.rest, hxs.rest]

/-- Written nodes with distinct names are read as they were, one after the other. -/
theorem nodesFrom_foldl (g : Graph ι τ ν η π) {es : List (ι × ν)} (hnodup : (es.map (·.1)).Nodup)
    (h : Graph ι τ ν η π) (hnew : ∀ e ∈ es, e.1 ∉ h.nodes.keys) :
    NodesFrom g es h (es.foldl g.addRead h) := by
  induction es generalizing h with
  | nil => exact ⟨by simp, by simp, by simp, rfl⟩
  | cons e rest ih =>
    obtain ⟨he, hrest⟩ := List.nodup_cons.1 hnodup
    have hfirst : NodesFrom g [e] h (g.addRead h e) :=
      nodesFrom_singleton g (hnew e (List.mem_cons_self ..))
    refine hfirst.append (ih hrest (g.addRead h e) fun x hx hmem => ?_)
    have hkeys : (g.addRead h e).nodes.keys = h.nodes.keys ++ [e.1] := by
      have hmap := congrArg (List.map (·.1)) hfirst.nodes
      simpa [Dict.keys] using hmap
    rw [hkeys, List.mem_append, List.mem_singleton] at hmem
    rcases hmem with hmem | hmem
    · exact hnew x (List.mem_cons_of_mem _ hx) hmem
    · exact he (List.mem_map.2 ⟨x, hx, hmem⟩)

/-! ## Edges -/

/-- The edges that lead from a node, by where they lead. -/
def endsFrom (c : ι) (es : List (ι × ι)) : List ι :=
  (es.filter fun e => e.1 = c).map (·.2)

/-- The edges that lead to a node, by where they come from. -/
def startsTo (c : ι) (es : List (ι × ι)) : List ι :=
  (es.filter fun e => e.2 = c).map (·.1)

/-- Edges that are added one after the other are listed with both of their ends, in their
order. Nothing but edges changes. -/
structure EdgesFrom (es : List (ι × ι)) (h h' : Graph ι τ ν η π) : Prop where
  dependencies : ∀ c, h'.dependencies c = (endsFrom c es).foldl appendNew (h.dependencies c)
  dependents : ∀ c, h'.dependents c = (startsTo c es).foldl appendNew (h.dependents c)
  rest : h' = { h with outgoing := h'.outgoing, incoming := h'.incoming }

theorem edgesFrom_foldl [SelfEqual ι] {es : List (ι × ι)} {h : Graph ι τ ν η π}
    (hends : ∀ e ∈ es, Apart e.1 e.2 ∧ h.contains e.1 = true ∧ h.contains e.2 = true) :
    EdgesFrom es h (es.foldl (fun h e => h.addDependency e.1 e.2) h) := by
  induction es generalizing h with
  | nil => exact ⟨fun _ => rfl, fun _ => rfl, rfl⟩
  | cons e rest ih =>
    have hfirst := hends e (List.mem_cons_self ..)
    have hlater := ih (h := h.addDependency e.1 e.2) fun x hx => by
      rw [contains_congr (nodes_addDependency h _ _), contains_congr (nodes_addDependency h _ _)]
      exact hends x (List.mem_cons_of_mem _ hx)
    refine ⟨fun c => ?_, fun c => ?_, ?_⟩
    · rw [List.foldl_cons, hlater.dependencies, dependencies_addDependency, endsFrom, endsFrom]
      by_cases hc : e.1 = c
      · subst hc
        simp [hfirst]
      · simp [hc, Ne.symm hc]
    · rw [List.foldl_cons, hlater.dependents, dependents_addDependency, startsTo, startsTo]
      by_cases hc : e.2 = c
      · subst hc
        simp [hfirst]
      · simp [hc, Ne.symm hc]
    · obtain ⟨outgoing, incoming, hadded⟩ := h.exists_addDependency_eq e.1 e.2
      rw [List.foldl_cons, hlater.rest, hadded]

/-- Of what comes from distinct elements, one of them gives its own. -/
theorem flatMap_ite_eq {α β : Type} [DecidableEq α] {xs : List α} (hxs : xs.Nodup) (c : α)
    (f : α → List β) :
    (xs.flatMap fun a => if a = c then f a else []) = if c ∈ xs then f c else [] := by
  induction xs with
  | nil => rfl
  | cons a rest ih =>
    obtain ⟨ha, hrest⟩ := List.nodup_cons.1 hxs
    rw [List.flatMap_cons, ih hrest]
    by_cases hac : a = c
    · subst hac
      simp [ha]
    · simp [hac, Ne.symm hac]

/-- A distinct element is picked out once. -/
theorem filter_eq_ite {α : Type} [DecidableEq α] {xs : List α} (hxs : xs.Nodup) (c : α) :
    (xs.filter fun a => a = c) = if c ∈ xs then [c] else [] := by
  rw [List.filter_eq, hxs.count]
  split <;> rfl

/-- The edges of a graph that lead from a node are its dependencies. -/
theorem WellFormed.endsFrom_edgeList [DecidableEq τ] [SelfEqual ι] {g : Graph ι τ ν η π}
    (hg : g.WellFormed) (c : ι) :
    endsFrom c g.edgeList = g.dependencies c := by
  have hown (a : ι) : (((g.dependencies a).map fun b => (a, b)).filter
      fun e => e.1 = c).map (·.2) = if a = c then g.dependencies a else [] := by
    by_cases hac : a = c <;> simp [List.filter_map, Function.comp_def, hac]
  rw [endsFrom, edgeList, List.filter_flatMap, List.map_flatMap]
  simp only [hown]
  rw [flatMap_ite_eq (show g.identifiers.Nodup from hg.nodes_nodup) c g.dependencies]
  split
  · rfl
  · next hc =>
    refine (List.eq_nil_iff_forall_not_mem.2 fun b hb => hc ?_).symm
    exact (Dict.contains_iff_mem_keys _ c).1 (hg.edges.ends c b hb).1

/-- The edges of a graph that lead to a node come from its dependents, in the order of the
nodes. -/
theorem WellFormed.startsTo_edgeList [DecidableEq τ] [SelfEqual ι] {g : Graph ι τ ν η π}
    (hg : g.WellFormed) (c : ι) :
    startsTo c g.edgeList = g.identifiers.filter fun a => c ∈ g.dependencies a := by
  have hown (a : ι) : (((g.dependencies a).map fun b => (a, b)).filter
      fun e => e.2 = c).map (·.1) = if c ∈ g.dependencies a then [a] else [] := by
    rw [List.filter_map, List.map_map]
    have hpick := filter_eq_ite (hg.edges.dependencies_nodup a) c
    simp only [Function.comp_def, hpick]
    split <;> rfl
  rw [startsTo, edgeList, List.filter_flatMap, List.map_flatMap]
  simp only [hown]
  induction g.identifiers with
  | nil => rfl
  | cons a rest ih => by_cases hc : c ∈ g.dependencies a <;> simp [hc, ih]

/-! ## Marks and methods -/

/-- Nodes are marked in the order in which they are written. -/
theorem foldl_markEntryPoint {h : Graph ι τ ν η π} {ids : List ι}
    (hids : ∀ id ∈ ids, h.contains id = true) :
    ids.foldl markEntryPoint h =
      { h with entryPoints := ids.foldl appendNew h.entryPoints } := by
  induction ids generalizing h with
  | nil => rfl
  | cons id rest ih =>
    have hmark : h.markEntryPoint id = { h with entryPoints := appendNew h.entryPoints id } :=
      if_pos (hids id (List.mem_cons_self ..))
    have hlater := ih (h := { h with entryPoints := appendNew h.entryPoints id })
      fun x hx => hids x (List.mem_cons_of_mem _ hx)
    rw [List.foldl_cons, hmark, hlater]
    rfl

/-- The methods of nodes are set in the order in which they are written. -/
theorem foldl_setMethods {h : Graph ι τ ν η π} {es : List (ι × List (Method ν η))}
    (hids : ∀ e ∈ es, h.contains e.1 = true) :
    es.foldl (fun h e => h.setMethods e.1 e.2) h =
      { h with methods := es.foldl (fun d e => d.insert e.1 e.2) h.methods } := by
  induction es generalizing h with
  | nil => rfl
  | cons e rest ih =>
    have hset : h.setMethods e.1 e.2 = { h with methods := h.methods.insert e.1 e.2 } :=
      if_pos (hids e (List.mem_cons_self ..))
    have hlater := ih (h := { h with methods := h.methods.insert e.1 e.2 })
      fun x hx => hids x (List.mem_cons_of_mem _ hx)
    rw [List.foldl_cons, hset, hlater]
    rfl

/-! ## Links -/

section Links

variable [DecidableEq τ] [DecidableEq π]

/-- The links by method without the methods that have none. -/
def filledGroups (d : Dict τ (List (ParameterLink ι τ π))) : Dict τ (List (ParameterLink ι τ π)) :=
  d.filter fun _ ls => !ls.isEmpty

/-- The links of nodes without the methods that have none and the nodes that have no method
with any. -/
def filledLinks (g : Graph ι τ ν η π) : Dict ι (Dict τ (List (ParameterLink ι τ π))) :=
  (g.links.mapValues fun _ d => filledGroups d).filter fun _ d => !d.isEmpty

/-- Links of a node that are added one after the other are grouped by method. -/
theorem foldl_addMethodParameter {h : Graph ι τ ν η π} {id : ι} (hid : h.contains id = true)
    {ls : List (ParameterLink ι τ π)} (htargets : ∀ l ∈ ls, h.contains l.target = true) :
    ls.foldl (fun h l => h.addMethodParameter id l.methodName l.position l.target) h =
      if ls.isEmpty then h
      else { h with links := h.links.insert id (regroup (h.linksOf id) ls) } := by
  induction ls generalizing h with
  | nil => rfl
  | cons l rest ih =>
    have hadd : h.addMethodParameter id l.methodName l.position l.target =
        { h with links := h.links.insert id (regroup (h.linksOf id) [l]) } := by
      refine if_neg ?_
      simp [hid, htargets l (List.mem_cons_self ..)]
    have hlater := ih (h := { h with links := h.links.insert id (regroup (h.linksOf id) [l]) })
      hid fun x hx => htargets x (List.mem_cons_of_mem _ hx)
    rw [List.foldl_cons, hadd, hlater]
    cases rest with
    | nil => rfl
    | cons l' rest =>
      have hgrouped : regroup (Graph.linksOf { h with
          links := h.links.insert id (regroup (h.linksOf id) [l]) } id) (l' :: rest) =
          regroup (h.linksOf id) (l :: l' :: rest) := by
        rw [linksOf, Dict.getD_insert, if_pos rfl]
        rfl
      simp only [List.isEmpty_cons, Bool.false_eq_true, if_false, hgrouped, Dict.insert_insert]

/-- The links of a node that has none yet are added by method; methods without any are lost. -/
theorem addLinks_eq {h : Graph ι τ ν η π} {e : ι × Dict τ (List (ParameterLink ι τ π))}
    (hid : h.contains e.1 = true) (hnew : e.1 ∉ h.links.keys) (hlinks : LinksOfNode h.nodes e.2) :
    h.addLinks e =
      if (filledGroups e.2).isEmpty then h
      else { h with links := h.links.insert e.1 (filledGroups e.2) } := by
  have hget {name : τ} {ls : List (ParameterLink ι τ π)} (hmem : (name, ls) ∈ e.2.entries) :
      e.2.get? name = some ls :=
    (Dict.mem_entries_iff hlinks.nodup name ls).1 hmem
  have hflat : h.addLinks e = (e.2.entries.flatMap (·.2)).foldl
      (fun h l => h.addMethodParameter e.1 l.methodName l.position l.target) h := by
    rw [List.foldl_flatMap]
    refine List.foldl_ext _ _ h fun h' m hm => List.foldl_ext _ _ h' fun _ l hl => ?_
    rw [hlinks.named m.1 m.2 (hget hm) l hl]
  have htargets : ∀ l ∈ e.2.entries.flatMap (·.2), h.contains l.target = true := by
    intro l hl
    obtain ⟨⟨name, ls⟩, hmem, hl⟩ := List.mem_flatMap.1 hl
    exact hlinks.targets name ls (hget hmem) l hl
  have hnone : h.linksOf e.1 = .empty :=
    Dict.getD_of_get?_eq_none _ (Dict.get?_eq_none_of_not_contains fun hc =>
      hnew ((Dict.contains_iff_mem_keys _ e.1).1 hc))
  have hgroups : regroup .empty (e.2.entries.flatMap (·.2)) = filledGroups e.2 :=
    regroup_flatMap e.2.entries hlinks.nodup
      (fun m hm => hlinks.links_nodup m.1 m.2 (hget hm))
      fun m hm => hlinks.named m.1 m.2 (hget hm)
  have hempty : (e.2.entries.flatMap (·.2)).isEmpty = (filledGroups e.2).isEmpty := by
    rw [Bool.eq_iff_iff]
    simp [filledGroups, Dict.filter, Dict.isEmpty]
  rw [hflat, foldl_addMethodParameter hid htargets, hnone, hgroups, hempty]

/-- The links of nodes that have none yet follow those that are there, without what is empty. -/
theorem foldl_addLinks {es : List (ι × Dict τ (List (ParameterLink ι τ π)))}
    (hnodup : (es.map (·.1)).Nodup) {h : Graph ι τ ν η π} (hids : ∀ e ∈ es, h.contains e.1 = true)
    (hnew : ∀ e ∈ es, e.1 ∉ h.links.keys) (hlinks : ∀ e ∈ es, LinksOfNode h.nodes e.2) :
    es.foldl addLinks h =
      { h with
        links := ⟨h.links.entries ++
          (es.map fun e => (e.1, filledGroups e.2)).filter fun e => !e.2.isEmpty⟩ } := by
  induction es generalizing h with
  | nil => simp
  | cons e rest ih =>
    obtain ⟨he, hrest⟩ := List.nodup_cons.1 hnodup
    have hfirst := hnew e (List.mem_cons_self ..)
    rw [List.foldl_cons, addLinks_eq (hids e (List.mem_cons_self ..)) hfirst
      (hlinks e (List.mem_cons_self ..))]
    by_cases hempty : (filledGroups e.2).isEmpty = true
    · rw [if_pos hempty, ih hrest (fun x hx => hids x (List.mem_cons_of_mem _ hx))
        (fun x hx => hnew x (List.mem_cons_of_mem _ hx))
        fun x hx => hlinks x (List.mem_cons_of_mem _ hx)]
      simp [hempty]
    · have hentries := Dict.entries_insert_of_new hfirst (filledGroups e.2)
      have hlater := ih hrest (h := { h with links := h.links.insert e.1 (filledGroups e.2) })
        (fun x hx => hids x (List.mem_cons_of_mem _ hx))
        (fun x hx hmem => by
          rw [Dict.keys, hentries, List.map_append, List.mem_append] at hmem
          rcases hmem with hmem | hmem
          · exact hnew x (List.mem_cons_of_mem _ hx) hmem
          · exact he (List.mem_map.2 ⟨x, hx, List.mem_singleton.1 hmem⟩))
        fun x hx => hlinks x (List.mem_cons_of_mem _ hx)
      rw [if_neg hempty, hlater, hentries]
      simp [hempty]

end Links

/-! ## The whole graph -/

/-- A graph that was rebuilt from what is written of another one. -/
structure Reread (g h : Graph ι τ ν η π) : Prop where
  nodes : h.nodes = g.nodes
  dependencies : ∀ id, h.dependencies id = g.dependencies id
  /-- The dependents of a node come in the order of the nodes. -/
  dependents : ∀ id, h.dependents id = g.identifiers.filter fun a => id ∈ g.dependencies a
  entryPoints : h.entryPoints = g.entryPoints
  classId? : ∀ id, h.classId? id = g.classId? id
  nodeInfo? : ∀ id, h.nodeInfo? id = g.nodeInfo? id
  methods : h.methods = g.methods
  /-- Methods without links are no longer listed. -/
  links : h.links = g.filledLinks

section Phases

variable [DecidableEq τ] [SelfEqual ι] {g h : Graph ι τ ν η π}

/-- The edges of a graph are added again where its nodes are. Those that lead to a node come
in the order of the nodes that they come from. -/
structure Rejoined (g h h' : Graph ι τ ν η π) : Prop where
  dependencies : ∀ id, h'.dependencies id = g.dependencies id
  dependents : ∀ id, h'.dependents id = g.identifiers.filter fun a => id ∈ g.dependencies a
  rest : h' = { h with outgoing := h'.outgoing, incoming := h'.incoming }

theorem WellFormed.rejoined (hg : g.WellFormed) (hnodes : h.nodes = g.nodes)
    (houtgoing : h.outgoing = .empty) (hincoming : h.incoming = .empty) :
    Rejoined g h (g.edgeList.foldl (fun h e => h.addDependency e.1 e.2) h) := by
  have hends : ∀ e ∈ g.edgeList, Apart e.1 e.2 ∧ h.contains e.1 = true ∧ h.contains e.2 = true := by
    intro e he
    obtain ⟨-, hb⟩ := mem_edgeList.1 he
    rw [contains_congr hnodes, contains_congr hnodes]
    exact ⟨hg.edges.apart e.1 e.2 hb, hg.edges.ends e.1 e.2 hb⟩
  have hnone (id : ι) : h.dependencies id = [] ∧ h.dependents id = [] := by
    unfold Graph.dependencies Graph.dependents
    rw [houtgoing, hincoming]
    exact ⟨rfl, rfl⟩
  obtain ⟨hdependencies, hdependents, hrest⟩ := edgesFrom_foldl hends
  refine ⟨fun id => ?_, fun id => ?_, hrest⟩
  · rw [hdependencies, (hnone id).1, hg.endsFrom_edgeList,
      foldl_appendNew_of_nodup (by simpa using hg.edges.dependencies_nodup id)]
    rfl
  · have hnodup : (g.identifiers.filter fun a => id ∈ g.dependencies a).Nodup :=
      hg.nodes_nodup.filter _
    rw [hdependents, (hnone id).2, hg.startsTo_edgeList,
      foldl_appendNew_of_nodup (by simpa using hnodup)]
    rfl

/-- The marks of a graph are set again where its nodes are. -/
theorem WellFormed.remarked (hg : g.WellFormed) (hnodes : h.nodes = g.nodes)
    (hnone : h.entryPoints = []) :
    g.entryPoints.foldl Graph.markEntryPoint h = { h with entryPoints := g.entryPoints } := by
  have hids : ∀ id ∈ g.entryPoints, h.contains id = true := fun id hid =>
    (contains_congr hnodes id).trans (hg.labels.entryPoints id hid)
  rw [foldl_markEntryPoint hids, hnone,
    foldl_appendNew_of_nodup (by simpa using hg.labels.entryPoints_nodup)]
  rfl

/-- The methods of a graph are set again where its nodes are. -/
theorem WellFormed.redescribed (hg : g.WellFormed) (hnodes : h.nodes = g.nodes)
    (hnone : h.methods = .empty) :
    g.methods.entries.foldl (fun h e => h.setMethods e.1 e.2) h =
      { h with methods := g.methods } := by
  have hids : ∀ e ∈ g.methods.entries, h.contains e.1 = true := fun e he =>
    (contains_congr hnodes e.1).trans (hg.labels.methods.contained e.1
      ((Dict.contains_iff_mem_keys _ e.1).2 (List.mem_map_of_mem he)))
  have hmethods := Dict.ofList_entries hg.labels.methods.nodup
  unfold Dict.ofList at hmethods
  rw [foldl_setMethods hids, hnone, hmethods]

/-- The links of a graph are added again where its nodes are, without what is empty. -/
theorem WellFormed.relinked [DecidableEq π] (hg : g.WellFormed) (hnodes : h.nodes = g.nodes)
    (hnone : h.links = .empty) :
    g.links.entries.foldl addLinks h = { h with links := g.filledLinks } := by
  have hget {e : ι × Dict τ (List (ParameterLink ι τ π))} (he : e ∈ g.links.entries) :
      g.links.get? e.1 = some e.2 :=
    (Dict.mem_entries_iff hg.links.owners.nodup e.1 e.2).1 he
  have hids : ∀ e ∈ g.links.entries, h.contains e.1 = true := fun e he =>
    (contains_congr hnodes e.1).trans
      (hg.links.owners.contained e.1 (Dict.contains_of_get?_eq_some (hget he)))
  have hnew : ∀ e ∈ g.links.entries, e.1 ∉ h.links.keys := fun e _ hmem => by
    rw [hnone] at hmem
    cases hmem
  rw [foldl_addLinks hg.links.owners.nodup hids hnew
    fun e he => hnodes ▸ hg.links.ofNode e.1 e.2 (hget he), hnone]
  rfl

end Phases

/-- Labels of nodes alone are found again under the nodes. -/
theorem get?_of_keysWithin {β : Type} {g : Graph ι τ ν η π} {d : Dict ι β}
    (h : d.KeysWithin g.nodes)
    (id : ι) :
    (if id ∈ g.nodes.keys then (d.get? id).or none else none) = d.get? id := by
  by_cases hid : id ∈ d.keys
  · have hnode : id ∈ g.nodes.keys := mem_identifiers_of_keysWithin h hid
    rw [if_pos hnode, Option.or_none]
  · have hnone := Dict.get?_eq_none_of_not_contains fun hc =>
      hid ((Dict.contains_iff_mem_keys _ id).1 hc)
    rw [hnone]
    split <;> rfl

/-- What is written of a well-formed graph rebuilds it. -/
theorem WellFormed.reread_rebuilt [DecidableEq τ] [DecidableEq π] [SelfEqual ι]
    {g : Graph ι τ ν η π} (hg : g.WellFormed) : Reread g g.rebuilt := by
  have hn : NodesFrom g g.nodes.entries empty
      (g.nodes.entries.foldl g.addRead empty) :=
    nodesFrom_foldl g hg.nodes_nodup empty fun e _ hmem => by cases hmem
  unfold rebuilt Dict.toList
  generalize (g.nodes.entries.foldl g.addRead empty) = n at hn
  have hnodes : n.nodes = g.nodes := congrArg Dict.mk hn.nodes
  have hj := hg.rejoined hnodes (congrArg Graph.outgoing hn.rest)
    (congrArg Graph.incoming hn.rest)
  dsimp only
  generalize g.edgeList.foldl (fun h e => h.addDependency e.1 e.2) n = j at hj
  have hjnodes : j.nodes = g.nodes := (congrArg Graph.nodes hj.rest).trans hnodes
  have hmarks : j.entryPoints = [] :=
    (congrArg Graph.entryPoints hj.rest).trans (congrArg Graph.entryPoints hn.rest)
  have hmethods : j.methods = .empty :=
    (congrArg Graph.methods hj.rest).trans (congrArg Graph.methods hn.rest)
  have hlinks : j.links = .empty :=
    (congrArg Graph.links hj.rest).trans (congrArg Graph.links hn.rest)
  have hids : j.classIds = n.classIds := by rw [hj.rest]
  have hinfo : j.info = n.info := by rw [hj.rest]
  rw [hg.remarked hjnodes hmarks,
    hg.redescribed (h := { j with entryPoints := g.entryPoints }) hjnodes hmethods,
    hg.relinked (h := { j with entryPoints := g.entryPoints, methods := g.methods }) hjnodes
      hlinks]
  exact {
    nodes := hjnodes
    dependencies := hj.dependencies
    dependents := hj.dependents
    entryPoints := rfl
    classId? := fun id => (classId?_congr (g := n) hids id).trans
      ((hn.classId? id).trans (get?_of_keysWithin hg.labels.classIds id))
    nodeInfo? := fun id => (nodeInfo?_congr (g := n) hinfo id).trans
      ((hn.nodeInfo? id).trans (get?_of_keysWithin hg.labels.info id))
    methods := rfl
    links := rfl }

end CodeAtlas.Graph
