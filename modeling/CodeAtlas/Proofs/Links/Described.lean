import CodeAtlas.Proofs.Graph.Relabel
import CodeAtlas.Proofs.Links.Resolution
import CodeAtlas.Proofs.Run.Surveyed

/-!
# Links of described nodes

Describing a node adds a link for every target of its methods. This file says which links the
nodes have after all units of a Java repository have been described: those that their own files
make, given the known units.
-/

namespace CodeAtlas

/-! ## One node -/

/-- The links that the targets of one method make; the positions count the targets. -/
def MethodTargets.linksOfMethod (name : String) (targets : List String) : List ParameterLink :=
  targets.zipIdx.map fun p => ⟨name, p.2, p.1⟩

/-- The links that targets make, by method. -/
def MethodTargets.links (r : MethodTargets) : Dict String (List ParameterLink) :=
  r.mapValues linksOfMethod

/-- Two links of one method differ by their positions. -/
theorem MethodTargets.nodup_linksOfMethod (name : String) (targets : List String) :
    (linksOfMethod name targets).Nodup := by
  have hpositions : (linksOfMethod name targets).map (·.position) =
      (targets.zipIdx.map Prod.snd).map Int.ofNat := by
    unfold linksOfMethod
    rw [List.map_map, List.map_map]
    rfl
  have hnodup : ((linksOfMethod name targets).map (·.position)).Nodup := by
    rw [hpositions, List.zipIdx_map_snd]
    have hrange : (List.range' 0 targets.length).Nodup := List.nodup_range' _
    refine List.pairwise_map.2 (hrange.imp fun {m n} hne heq => hne ?_)
    exact Int.ofNat.inj heq
  exact (List.pairwise_map.1 hnodup).imp fun hne heq => hne (congrArg (·.position) heq)

namespace Graph

variable {g : Graph} {id : String}

/-- One more link of a node. -/
def addLink (id : String) (g : Graph) (l : ParameterLink) : Graph :=
  g.addMethodParameter id l.methodName l.position l.target

/-- Links to nodes are added to one node, and nothing else changes. -/
theorem foldl_addLink (hid : g.contains id = true) {ls : List ParameterLink}
    (hls : ∀ l ∈ ls, g.contains l.target = true) :
    (ls.foldl (addLink id) g).linksOf id = regroup (g.linksOf id) ls ∧
      ∀ j, j ≠ id → SameAt j g (ls.foldl (addLink id) g) := by
  induction ls generalizing g with
  | nil => exact ⟨rfl, fun j _ => .refl j g⟩
  | cons l rest ih =>
    have hnodes : (addLink id g l).nodes = g.nodes := nodes_addMethodParameter ..
    obtain ⟨hlinks, hothers⟩ := ih (g := addLink id g l) ((contains_congr hnodes id).trans hid)
      fun x hx => (contains_congr hnodes _).trans (hls x (List.mem_cons_of_mem _ hx))
    have htarget := hls l (List.mem_cons_self ..)
    have hstep : (addLink id g l).linksOf id = regroup (g.linksOf id) [l] := by
      unfold addLink
      rw [linksOf_addMethodParameter, if_pos ⟨rfl, hid, htarget⟩]
      rfl
    refine ⟨?_, fun j hj => ?_⟩
    · rw [List.foldl_cons, hlinks, hstep]
      rfl
    · exact (SameAt.addMethodParameter hj _ _ _).trans (hothers j hj)

/-- A node before its links are added. -/
def labelDescribed (g : Graph) (id : String) (facts : UnitFacts) : Graph :=
  ((g.setNodeInfo id ⟨facts.kind, g.description? id⟩).setMethods id
    facts.methods).clearMethodParameters id

theorem describeNode_eq (g : Graph) (id : String) (facts : UnitFacts) :
    g.describeNode id facts =
      (facts.parameters.toList.flatMap fun e => MethodTargets.linksOfMethod e.1 e.2).foldl
        (addLink id) (g.labelDescribed id facts) := by
  rw [List.foldl_flatMap]
  unfold describeNode addMethodParameters MethodTargets.linksOfMethod
  simp only [List.foldl_map]
  rfl

theorem sameAt_labelDescribed {j : String} (hj : j ≠ id) (facts : UnitFacts) :
    SameAt j g (g.labelDescribed id facts) := by
  refine (SameAt.setNodeInfo hj ⟨facts.kind, g.description? id⟩).trans ?_
  exact (SameAt.setMethods hj facts.methods).trans (.clearMethodParameters hj)

/-- A described node has the links that its targets make, if these are nodes, and no other node
has changed. -/
theorem describeNode_at (hid : g.contains id = true) {facts : UnitFacts}
    (hfacts : facts.parameters.All fun t => g.contains t = true) :
    (g.describeNode id facts).linksOf id = facts.parameters.links ∧
      ∀ j, j ≠ id → SameAt j g (g.describeNode id facts) := by
  have hnodes : (g.labelDescribed id facts).nodes = g.nodes := by simp [labelDescribed]
  have htargets : ∀ l ∈ facts.parameters.toList.flatMap
      fun e => MethodTargets.linksOfMethod e.1 e.2,
        (g.labelDescribed id facts).contains l.target = true := by
    intro l hl
    obtain ⟨e, he, hl⟩ := List.mem_flatMap.1 hl
    obtain ⟨p, hp, rfl⟩ := List.mem_map.1 hl
    rw [contains_congr hnodes]
    exact (hfacts.of_mem he).2 _ (List.fst_mem_of_mem_zipIdx hp)
  obtain ⟨hlinks, hothers⟩ := foldl_addLink ((contains_congr hnodes id).trans hid) htargets
  have hempty : (g.labelDescribed id facts).linksOf id = .empty := by
    unfold labelDescribed
    rw [linksOf_clearMethodParameters, if_pos rfl]
  have hgroups := regroup_flatMap
    (facts.parameters.toList.map fun e => (e.1, MethodTargets.linksOfMethod e.1 e.2))
    (by
      rw [List.map_map]
      exact hfacts.names_nodup)
    (fun e' he' => by
      obtain ⟨e, -, rfl⟩ := List.mem_map.1 he'
      exact MethodTargets.nodup_linksOfMethod e.1 e.2)
    (fun e' he' l hl => by
      obtain ⟨e, -, rfl⟩ := List.mem_map.1 he'
      obtain ⟨p, -, rfl⟩ := List.mem_map.1 hl
      rfl)
  refine ⟨?_, fun j hj => ?_⟩
  · rw [describeNode_eq, hlinks, hempty]
    rw [List.flatMap_map] at hgroups
    rw [hgroups]
    unfold MethodTargets.links Dict.mapValues
    congr 1
    refine List.filter_eq_self.2 fun e' he' => ?_
    obtain ⟨e, he, rfl⟩ := List.mem_map.1 he'
    have hnonempty := (hfacts.of_mem he).1
    simpa [MethodTargets.linksOfMethod] using hnonempty
  · rw [describeNode_eq]
    exact (sameAt_labelDescribed hj facts).trans (hothers j hj)

end Graph

/-! ## The units of a Java repository -/

/-- The facts of a Java file, if certain units are known. -/
def JavaFile.facts (j : JavaFile) (known : List String) : UnitFacts :=
  ⟨j.kind, j.extractedMethods, j.parameterTargets known⟩

section Java

variable {e : Examiner} (he : e.language = .java) (s : Sources) (root : Path)
  (known : List String)
include he

/-- A Java file that can be read can be examined, whatever runs beside. -/
theorem UnitFacts.run_extract_java {file : Path} {f : SourceFile}
    (hread : SourceFile.read s.kept file = .ok f) (st : ExaminerState) :
    (UnitFacts.extract e s root known file).run st =
      (.ok ((JavaFile.ofSource f).facts known), st) := by
  unfold UnitFacts.extract Examiner.kind Examiner.methods Examiner.parameterTargets
  rw [he]
  dsimp only
  rw [hread]
  rfl

/-- Every unit's node gets the links that the unit's own file makes; the other nodes stay as they
are, and nothing fails. -/
theorem Graph.describeUnits_java {us : List SourceUnit}
    (hnodup : (us.map (·.identifier)).Nodup)
    (hread : ∀ u ∈ us, ∃ f, SourceFile.read s.kept u.path = .ok f) {g : Graph}
    (hnodes : ∀ u ∈ us, g.contains u.identifier = true)
    (hknown : ∀ t, known.contains t = true → g.contains t = true) (failed : List String)
    (st : ExaminerState) :
    ∃ h, (describeUnits e s root known us g failed).run st = (.ok (h, failed), st) ∧
      h.nodes = g.nodes ∧
      (∀ u ∈ us, ∀ f, SourceFile.read s.kept u.path = .ok f →
        h.linksOf u.identifier = ((JavaFile.ofSource f).parameterTargets known).links) ∧
      ∀ j, j ∉ us.map (·.identifier) → SameAt j g h := by
  induction us generalizing g with
  | nil =>
    refine ⟨g, rfl, rfl, fun u hu => ?_, fun j _ => .refl j g⟩
    cases hu
  | cons u rest ih =>
    obtain ⟨hu, hrest⟩ := List.nodup_cons.1 hnodup
    obtain ⟨f, hf⟩ := hread u (List.mem_cons_self ..)
    have hid := hnodes u (List.mem_cons_self ..)
    have hdescribed := nodes_describeNode g u.identifier ((JavaFile.ofSource f).facts known)
    have htargets : ((JavaFile.ofSource f).facts known).parameters.All
        fun t => g.contains t = true :=
      ((JavaFile.ofSource f).parameterTargets_all known).mono fun t ht => hknown t ht.1
    obtain ⟨hlinks, hothers⟩ := describeNode_at hid htargets
    obtain ⟨h, hrun, hkept, hlater, hsame⟩ :=
      ih hrest (fun x hx => hread x (List.mem_cons_of_mem _ hx))
        (g := g.describeNode u.identifier ((JavaFile.ofSource f).facts known))
        (fun x hx => (contains_congr hdescribed _).trans (hnodes x (List.mem_cons_of_mem _ hx)))
        fun t ht => (contains_congr hdescribed _).trans (hknown t ht)
    refine ⟨h, ?_, hkept.trans hdescribed, fun x hx f' hf' => ?_, fun j hj => ?_⟩
    · unfold describeUnits
      rw [if_pos hid]
      have hattempt : ((UnitFacts.extract e s root known u.path).attempt).run st =
          (.ok (.ok ((JavaFile.ofSource f).facts known)), st) := by
        rw [Examining.run_attempt, UnitFacts.run_extract_java he s root known hf]
      rw [Fallible.run_bind_of_ok hattempt]
      exact hrun
    · rcases List.mem_cons.1 hx with rfl | hx
      · rw [hf] at hf'
        obtain rfl := Except.ok.inj hf'
        exact (hsame x.identifier hu).links.trans hlinks
      · exact hlater x hx f' hf'
    · rw [List.map_cons, List.mem_cons, not_or] at hj
      exact (hothers j hj.1).trans (hsame j hj.2)

end Java

end CodeAtlas
