import CodeAtlas.Ignore.Patterns
import CodeAtlas.Proofs.Links.Described
import CodeAtlas.Proofs.Run.Described
import CodeAtlas.Proofs.Source.Identified

/-!
# What describing leaves alone

Describing units gives nodes new facts and may fail for any of them. This file proves what becomes
of every node whichever extractions fail, also when units share their identifiers: the last
extraction that did not fail decides, and a node without one keeps all that was known about it.
-/

namespace CodeAtlas.Graph

variable {g h k : Graph} {id j : String}

/-! ## Steps -/

/-- Graphs with the same nodes, edges, entry points and ties to records. -/
structure SameStructure (g h : Graph) : Prop where
  nodes : h.nodes = g.nodes
  outgoing : h.outgoing = g.outgoing
  incoming : h.incoming = g.incoming
  entryPoints : h.entryPoints = g.entryPoints
  classIds : h.classIds = g.classIds

/-- Graphs that know the same about one of their nodes. -/
structure SameFacts (id : String) (g h : Graph) : Prop where
  info : h.info.get? id = g.info.get? id
  methods : h.methods.get? id = g.methods.get? id
  links : h.links.get? id = g.links.get? id

/-- What two graphs share once a node is labelled, and go on to share with every link of it, they
share when the node is described. -/
theorem describeNode_induction {R : Graph → Graph → Prop} {facts : UnitFacts}
    (hstart : R (g.labelDescribed id facts) (h.labelDescribed id facts))
    (hlink : ∀ g h l, R g h → R (g.addLink id l) (h.addLink id l)) :
    R (g.describeNode id facts) (h.describeNode id facts) := by
  rw [describeNode_eq, describeNode_eq]
  exact List.foldl_rel hstart fun l _ g h hgh => hlink g h l hgh

namespace SameStructure

theorem refl (g : Graph) : SameStructure g g := ⟨rfl, rfl, rfl, rfl, rfl⟩

theorem trans (hgh : SameStructure g h) (hhk : SameStructure h k) : SameStructure g k :=
  ⟨hhk.nodes.trans hgh.nodes, hhk.outgoing.trans hgh.outgoing, hhk.incoming.trans hgh.incoming,
    hhk.entryPoints.trans hgh.entryPoints, hhk.classIds.trans hgh.classIds⟩

theorem setNodeInfo (g : Graph) (id : String) (i : NodeInfo) :
    SameStructure g (g.setNodeInfo id i) := by
  unfold Graph.setNodeInfo
  split
  · exact ⟨rfl, rfl, rfl, rfl, rfl⟩
  · exact .refl g

theorem setMethods (g : Graph) (id : String) (ms : List Method) :
    SameStructure g (g.setMethods id ms) := by
  unfold Graph.setMethods
  split
  · exact ⟨rfl, rfl, rfl, rfl, rfl⟩
  · exact .refl g

theorem clearMethodParameters (g : Graph) (id : String) :
    SameStructure g (g.clearMethodParameters id) :=
  ⟨rfl, rfl, rfl, rfl, rfl⟩

theorem labelDescribed (g : Graph) (id : String) (facts : UnitFacts) :
    SameStructure g (g.labelDescribed id facts) :=
  ((setNodeInfo g id _).trans (setMethods _ id _)).trans (clearMethodParameters _ id)

theorem addLink (id : String) (g : Graph) (l : ParameterLink) :
    SameStructure g (g.addLink id l) := by
  unfold Graph.addLink addMethodParameter
  split
  · exact .refl g
  · exact ⟨rfl, rfl, rfl, rfl, rfl⟩

theorem describeNode (g : Graph) (id : String) (facts : UnitFacts) :
    SameStructure g (g.describeNode id facts) :=
  describeNode_induction (h := g) (R := fun h _ => SameStructure g h) (labelDescribed g id facts)
    fun h _ l hgh => hgh.trans (addLink id h l)

end SameStructure

namespace SameFacts

theorem refl (id : String) (g : Graph) : SameFacts id g g := ⟨rfl, rfl, rfl⟩

theorem trans (hgh : SameFacts id g h) (hhk : SameFacts id h k) : SameFacts id g k :=
  ⟨hhk.info.trans hgh.info, hhk.methods.trans hgh.methods, hhk.links.trans hgh.links⟩

theorem labelDescribed (hj : j ≠ id) (g : Graph) (facts : UnitFacts) :
    SameFacts j g (g.labelDescribed id facts) where
  info := (sameAt_labelDescribed hj facts).info
  methods := (sameAt_labelDescribed hj facts).methods
  links := by simp [Graph.labelDescribed, Graph.clearMethodParameters, Dict.get?_erase, hj]

theorem addLink (hj : j ≠ id) (g : Graph) (l : ParameterLink) :
    SameFacts j g (g.addLink id l) where
  info := by simp [Graph.addLink]
  methods := by simp [Graph.addLink]
  links := by
    unfold Graph.addLink addMethodParameter
    split
    · rfl
    · exact (Dict.get?_insert ..).trans (if_neg hj)

/-- Describing a node does not show at the others. -/
theorem describeNode (hj : j ≠ id) (g : Graph) (facts : UnitFacts) :
    SameFacts j g (g.describeNode id facts) :=
  describeNode_induction (h := g) (R := fun h _ => SameFacts j g h) (labelDescribed hj g facts)
    fun h _ l hgh => hgh.trans (addLink hj h l)

/-- Graphs that know the same about a node still do so with one more link of it. -/
theorem addLink_congr (hnodes : h.nodes = g.nodes) (hgh : SameFacts id g h) (l : ParameterLink) :
    SameFacts id (g.addLink id l) (h.addLink id l) where
  info := by simpa [Graph.addLink] using hgh.info
  methods := by simpa [Graph.addLink] using hgh.methods
  links := by
    have hlinks : h.linksOf id = g.linksOf id := by
      unfold linksOf Dict.getD
      rw [hgh.links]
    unfold Graph.addLink addMethodParameter
    rw [contains_congr hnodes, contains_congr hnodes, hlinks]
    split
    · exact hgh.links
    · rw [Dict.get?_insert, Dict.get?_insert, if_pos rfl, if_pos rfl]

theorem labelDescribed_congr (hnodes : h.nodes = g.nodes) (hid : g.contains id = true)
    (hdescription : h.description? id = g.description? id) (facts : UnitFacts) :
    SameFacts id (g.labelDescribed id facts) (h.labelDescribed id facts) := by
  have hid' : h.contains id = true := (contains_congr hnodes id).trans hid
  unfold Graph.labelDescribed Graph.setNodeInfo
  rw [if_pos hid, if_pos hid', hdescription]
  unfold Graph.setMethods
  rw [if_pos (by exact hid), if_pos (by exact hid')]
  exact ⟨by simp [Dict.get?_insert], by simp [Dict.get?_insert],
    by simp [Graph.clearMethodParameters, Dict.get?_erase]⟩

/-- What is known about a described node follows from its facts and its description. -/
theorem describeNode_congr (hnodes : h.nodes = g.nodes) (hid : g.contains id = true)
    (hdescription : h.description? id = g.description? id) (facts : UnitFacts) :
    SameFacts id (g.describeNode id facts) (h.describeNode id facts) := by
  refine (describeNode_induction (R := fun g h => h.nodes = g.nodes ∧ SameFacts id g h)
    ⟨?_, labelDescribed_congr hnodes hid hdescription facts⟩ fun g h l hgh => ⟨?_, ?_⟩).2
  · rw [(SameStructure.labelDescribed h id facts).nodes, hnodes,
      (SameStructure.labelDescribed g id facts).nodes]
  · rw [(SameStructure.addLink id h l).nodes, hgh.1, (SameStructure.addLink id g l).nodes]
  · exact addLink_congr hgh.1 hgh.2 l

end SameFacts

/-- Describing keeps the descriptions of all nodes. -/
theorem description?_describeNode (g : Graph) (id : String) (facts : UnitFacts) (j : String) :
    (g.describeNode id facts).description? j = g.description? j := by
  rw [description?_congr (nodeInfo?_congr (g.describeNode_keeps id facts).1 j)]
  unfold description?
  rw [nodeInfo?_setNodeInfo]
  split
  · next h => rw [h.1]; rfl
  · rfl

/-! ## Runs -/

/-- A graph after extractions and the identifiers that are reported as failed. -/
structure Redescribed (g : Graph) (xs : List Extraction) (h : Graph) (failed : List String) :
    Prop where
  structure_kept : SameStructure g h
  descriptions : ∀ id, h.description? id = g.description? id
  failures : ∀ id, id ∈ failed ↔ ∃ x ∈ xs, x.unit.identifier = id ∧ x.Raised
  /-- Where nothing was extracted or every extraction failed, all that was known is kept. -/
  kept : ∀ id, (∀ x ∈ xs, x.unit.identifier = id → x.Raised) → SameFacts id g h
  /-- The last extraction of a node that did not fail describes it. -/
  described : ∀ before after u facts, xs = before ++ ⟨u, .ok facts⟩ :: after →
    (∀ x ∈ after, x.unit.identifier = u.identifier → x.Raised) →
      g.contains u.identifier = true → SameFacts u.identifier (g.describeNode u.identifier facts) h
  /-- With different identifiers a failure leaves its node as it was. -/
  distinct : (xs.map (·.unit.identifier)).Nodup → ∀ id ∈ failed, SameFacts id g h

/-- One extraction keeps the structure and the descriptions, and touches no node but its own, and
that only if it did not fail. -/
theorem describe_keeps (g : Graph) (x : Extraction) :
    SameStructure g (x.describe g) ∧ (∀ j, (x.describe g).description? j = g.description? j) ∧
      ∀ j, (x.unit.identifier = j → x.Raised) → SameFacts j g (x.describe g) := by
  unfold Extraction.describe
  cases hout : x.outcome with
  | error f => exact ⟨.refl g, fun _ => rfl, fun j _ => .refl j g⟩
  | ok facts =>
    refine ⟨.describeNode .., g.description?_describeNode _ facts, fun j hj => ?_⟩
    have hne : j ≠ x.unit.identifier := fun heq => by
      obtain ⟨f, hf⟩ := hj heq.symm
      rw [hout] at hf
      cases hf
    exact .describeNode hne g facts

/-- Extractions keep the structure and the descriptions, and touch no node for which none
succeeded. -/
theorem describedBy_keeps (g : Graph) (xs : List Extraction) :
    SameStructure g (g.describedBy xs) ∧
      (∀ j, (g.describedBy xs).description? j = g.description? j) ∧
      ∀ j, (∀ x ∈ xs, x.unit.identifier = j → x.Raised) → SameFacts j g (g.describedBy xs) := by
  unfold describedBy
  induction xs generalizing g with
  | nil => exact ⟨.refl g, fun _ => rfl, fun j _ => .refl j g⟩
  | cons x rest ih =>
    obtain ⟨hstructure, hdescriptions, hfacts⟩ := g.describe_keeps x
    obtain ⟨hstructure', hdescriptions', hfacts'⟩ := ih (x.describe g)
    refine ⟨hstructure.trans hstructure', fun j => (hdescriptions' j).trans (hdescriptions j),
      fun j hj => ?_⟩
    exact (hfacts j (hj x List.mem_cons_self)).trans
      (hfacts' j fun y hy => hj y (List.mem_cons_of_mem _ hy))

/-- Whatever extractions come to, the graph and the failed identifiers follow from them. -/
theorem redescribed_describedBy (g : Graph) (xs : List Extraction) :
    g.Redescribed xs (g.describedBy xs) (Extraction.failures xs) := by
  obtain ⟨hstructure, hdescriptions, hkept⟩ := g.describedBy_keeps xs
  refine ⟨hstructure, hdescriptions, fun id => Extraction.mem_failures, hkept, ?_, ?_⟩
  · rintro before after u facts rfl hafter hid
    obtain ⟨hbefore, hdescription, -⟩ := g.describedBy_keeps before
    have hlater := ((g.describedBy before).describeNode u.identifier facts).describedBy_keeps after
    have hown := SameFacts.describeNode_congr hbefore.nodes hid (hdescription _) facts
    have hsplit : g.describedBy (before ++ ⟨u, .ok facts⟩ :: after) =
        ((g.describedBy before).describeNode u.identifier facts).describedBy after :=
      List.foldl_append ..
    rw [hsplit]
    exact hown.trans (hlater.2.2 _ hafter)
  · intro hnodup id hid
    obtain ⟨x, hx, hxid, hraised⟩ := Extraction.mem_failures.1 hid
    refine hkept id fun y hy hyid => ?_
    rwa [List.inj_on_of_nodup_map hnodup hy hx (hyid.trans hxid.symm)]

/-- Failures of extractions do not end a run. -/
theorem exists_run_extractAll (e : Examiner) (s : Sources) (root : Path) (known : List String)
    (us : List SourceUnit) (st : ExaminerState) :
    ∃ xs after, (extractAll e s root known us).run st = (.ok xs, after) := by
  induction us generalizing st with
  | nil => exact ⟨[], st, rfl⟩
  | cons u us ih =>
    obtain ⟨xs, after, hrun⟩ := ih ((UnitFacts.extract e s root known u.path).run st).2
    refine ⟨⟨u, ((UnitFacts.extract e s root known u.path).run st).1⟩ :: xs, after, ?_⟩
    unfold extractAll
    rw [Fallible.run_bind_of_ok (Examining.run_attempt _ st), Fallible.run_bind_of_ok hrun]
    rfl

theorem run_ofOutcome_bind {α β : Type} (o : Outcome α) (f : α → Examining β)
    (st : ExaminerState) :
    (Examining.ofOutcome o >>= f).run st =
      match o with
      | .error e => (.error e, st)
      | .ok a => (f a).run st := by
  cases o <;> rfl

/-- Whichever extractions fail, and however often units share an identifier: describing keeps the
nodes, edges, entry points, ties to records and descriptions; a node of which no unit is wanted,
or for which every extraction failed, keeps all that was known about it; every other one has the
facts of its last extraction that did not fail. A run describes the graph in this way by the
extractions of the wanted units that are nodes, unless these cannot be found at all. -/
theorem describe_frame (g : Graph) (e : Examiner) (s : Sources) (repository : Path)
    (units : Option (List SourceUnit)) (only : Option (List String)) (st : ExaminerState) :
    (∀ xs, g.Redescribed xs (g.describedBy xs) (Extraction.failures xs)) ∧
      match (do unitsOrFound e s repository (← e.sourceRoot s repository) units) with
      | .error f => ((g.describe e s repository units only).run st).1 = .error f
      | .ok us => ∃ xs, xs.map (·.unit) =
            (wantedUnits us only).filter (fun u => g.contains u.identifier) ∧
          ((g.describe e s repository units only).run st).1 =
            .ok (g.describedBy xs, Extraction.failures xs) := by
  refine ⟨g.redescribed_describedBy, ?_⟩
  obtain ⟨st', hsession⟩ : ∃ st', ((g.extractions e s repository units only).run st).1 =
      ((do
        let root ← Examining.ofOutcome (e.sourceRoot s repository)
        let units ← Examining.ofOutcome (unitsOrFound e s repository root units)
        extractAll e s root g.identifiers
          ((wantedUnits units only).filter fun u => g.contains u.identifier) :
            Examining (List Extraction)).run st').1 := by
    unfold extractions
    rw [run_inSession]
    split
    · exact ⟨st, rfl⟩
    · exact ⟨_, rfl⟩
  rw [describe_eq, Fallible.run_map, hsession, run_ofOutcome_bind]
  cases e.sourceRoot s repository with
  | error f => rfl
  | ok root =>
    change match unitsOrFound e s repository root units with | .error f => _ | .ok us => _
    dsimp only
    rw [run_ofOutcome_bind]
    cases unitsOrFound e s repository root units with
    | error f => rfl
    | ok us =>
      obtain ⟨xs, after, hrun⟩ := exists_run_extractAll e s root g.identifiers
        ((wantedUnits us only).filter fun u => g.contains u.identifier) st'
      refine ⟨xs, ensures_extractAll e s root _ _ _ _ _ hrun, ?_⟩
      dsimp only
      rw [hrun]
      rfl

/-- Two files with one identifier, of which the second one is no text. -/
def spoiltHomonym : FileTree := Survey.homonyms.put ["a.b.go"] (.file ⟨#[255]⟩ none)

/-- The identifier is reported as failed, and its node has been described from the other file. -/
theorem described_of_spoiltHomonym :
    ((Graph.empty : Graph).addNode "a.b" "a/b.go").nodeInfo? "a.b" = none ∧
      ∃ h after,
        ((Graph.empty.addNode "a.b" "a/b.go").describe ⟨.go, .standard, []⟩ (.ofFiles spoiltHomonym)
          ⟨true, []⟩ none none).run ⟨.empty, none⟩ = (.ok (h, ["a.b"]), after) ∧
        h.nodeInfo? "a.b" = some ⟨.other, none⟩ := by
  refine ⟨by decide +kernel, ?_⟩
  have hoption : ((((Graph.empty.addNode "a.b" "a/b.go").describe ⟨.go, .standard, []⟩
      (.ofFiles spoiltHomonym) ⟨true, []⟩ none none).run ⟨.empty, none⟩).1.toOption.map
        fun r => (r.2, r.1.nodeInfo? "a.b")) = some (["a.b"], some ⟨.other, none⟩) := by
    decide +kernel
  obtain ⟨⟨h, failed⟩, after, hrun, hdescribed⟩ := Fallible.exists_eq_ok hoption
  obtain ⟨rfl, hinfo⟩ := Prod.mk.inj hdescribed
  exact ⟨h, after, hrun, hinfo⟩

end CodeAtlas.Graph
