import CodeAtlas.Proofs.Graph.Answers
import CodeAtlas.Proofs.Graph.WellFormed
import CodeAtlas.Proofs.Record.Rollback

/-!
# Graphs and their records

A project's graph is kept a second time in its records. This file says when the two agree, what
follows for their readers, and that only the answers about the project matter.
-/

namespace CodeAtlas

open RecordStore

/-- Whether methods of one name have the same texts. Enrichment names methods by their names
only, so overloads could not be told apart otherwise. -/
def Method.SharedTexts (ms : List Method) : Prop :=
  ∀ m ∈ ms, ∀ n ∈ ms, m.name = n.name →
    m.description = n.description ∧ m.businessLogic = n.businessLogic

namespace Graph

/-- A well-formed graph whose overloads share their texts. -/
structure Coherent (g : Graph) : Prop where
  wellFormed : g.WellFormed
  shared : ∀ id, Method.SharedTexts (g.methodsOf id)

/-- A class record that says what a graph says about the node that it names. -/
structure NodeStored (g : Graph) (s : RecordStore) (r : ClassRecord) : Prop where
  tied : g.classId? r.identifier = some r.id
  kind : r.kind = g.kind r.identifier
  description : r.description = g.description? r.identifier
  methods : (s.methodsFor r.id).map MethodRecord.method = g.methodsOf r.identifier
  links : s.linksFor r.id = g.linkRecords r.identifier

/-- A graph and the records of a project that agree: every node has a record that says the same,
and every record is the one to which its node is tied. -/
structure Agrees (g : Graph) (s : RecordStore) (p : String) : Prop where
  wellFormed : g.WellFormed
  shared : ∀ id, Method.SharedTexts (g.methodsOf id)
  stored : ∀ id, g.contains id = true →
    ∃ r ∈ s.findByProject p, r.identifier = id ∧ g.NodeStored s r
  covered : ∀ r ∈ s.findByProject p,
    g.contains r.identifier = true ∧ g.classId? r.identifier = some r.id

variable {g : Graph} {s t : RecordStore} {p q id owner : String}

/-! ## Links of tied nodes -/

theorem linkRecords_of_tied (h : g.classId? id = some owner) :
    g.linkRecords id = (g.linksOf id).toList.flatMap fun e => e.2.filterMap fun l =>
      (g.classId? l.target).map fun target => ⟨owner, e.1, l.position, target⟩ := by
  unfold linkRecords
  rw [h]

theorem classId_of_mem_linkRecords (h : g.classId? id = some owner) {l : LinkRecord}
    (hl : l ∈ g.linkRecords id) : l.classId = owner := by
  rw [linkRecords_of_tied h] at hl
  obtain ⟨e, -, hl⟩ := List.mem_flatMap.1 hl
  obtain ⟨x, -, hl⟩ := List.mem_filterMap.1 hl
  obtain ⟨target, -, rfl⟩ := Option.map_eq_some_iff.1 hl
  rfl

/-- Only ties and links matter for the links that are stored. -/
theorem linkRecords_congr {h : Graph} (hids : h.classIds = g.classIds)
    (hlinks : h.linksOf id = g.linksOf id) : h.linkRecords id = g.linkRecords id := by
  unfold linkRecords
  simp only [classId?_congr hids, hlinks]

/-- The links of a node lead to nodes. -/
theorem WellFormed.contains_target (hg : g.WellFormed) {e : String × List ParameterLink}
    (he : e ∈ (g.linksOf id).toList) {l : ParameterLink} (hl : l ∈ e.2) :
    g.contains l.target = true := by
  have hnode := hg.links.linksOf id
  exact hnode.targets e.1 e.2 ((Dict.mem_entries_iff hnode.nodup e.1 e.2).1 he) l hl

/-! ## What agreement gives -/

/-- Nothing agrees with nothing. -/
theorem Agrees.of_empty (p : String) : Graph.empty.Agrees RecordStore.empty p where
  wellFormed := .of_empty
  shared _ m hm := by cases hm
  stored id h := by cases h
  covered r hr := by cases hr

/-- Agreement is about a project's classes, their methods and their links, and about nothing
else that is stored. -/
theorem Agrees.congr (h : g.Agrees s p) (hfind : t.findByProject p = s.findByProject p)
    (hmethods : ∀ r ∈ s.findByProject p, t.methodsFor r.id = s.methodsFor r.id)
    (hlinks : ∀ r ∈ s.findByProject p, t.linksFor r.id = s.linksFor r.id) : g.Agrees t p where
  wellFormed := h.wellFormed
  shared := h.shared
  stored id hid := by
    obtain ⟨r, hr, hidentifier, hstored⟩ := h.stored id hid
    refine ⟨r, hfind ▸ hr, hidentifier, hstored.tied, hstored.kind, hstored.description, ?_, ?_⟩
    · rw [hmethods r hr]
      exact hstored.methods
    · rw [hlinks r hr]
      exact hstored.links
  covered r hr := h.covered r (hfind ▸ hr)

/-- Runs of other projects do not show. -/
theorem Agrees.of_frame (h : g.Agrees s q) (hframe : Frame p s t) (hq : q ≠ p) : g.Agrees t q :=
  h.congr (hframe.classes q hq) (hframe.methods q hq) (hframe.links q hq)

/-- Neither does a run that was taken back. -/
theorem Agrees.of_sameAnswers (h : g.Agrees s p) (hsame : SameAnswers s t) : g.Agrees t p :=
  h.congr (hsame.findByProject p) (fun r _ => hsame.methodsFor r.id)
    fun r _ => hsame.linksFor r.id

section Readers

variable (h : g.Agrees s p)
include h

/-- No two records of the project bear one identifier. -/
theorem Agrees.eq_of_identifier (hs : s.Consistent) {r r' : ClassRecord}
    (hr : r ∈ s.findByProject p) (hr' : r' ∈ s.findByProject p)
    (heq : r.identifier = r'.identifier) : r = r' := by
  have htied := (h.covered r hr).2
  have htied' := (h.covered r' hr').2
  rw [heq, htied'] at htied
  exact eq_of_mem_findByProject hs hr hr' (Option.some.inj htied).symm

/-- Every record says what the graph says about its node. -/
theorem Agrees.nodeStored (hs : s.Consistent) {r : ClassRecord} (hr : r ∈ s.findByProject p) :
    g.NodeStored s r := by
  obtain ⟨r', hr', heq, hstored⟩ := h.stored r.identifier (h.covered r hr).1
  obtain rfl := h.eq_of_identifier hs hr' hr heq
  exact hstored

/-- A node that is tied to a record is the one that the record names. -/
theorem Agrees.exists_record {c : String} (hc : g.classId? id = some c) :
    ∃ r ∈ s.findByProject p, r.identifier = id ∧ r.id = c := by
  have hnode : g.contains id = true :=
    h.wellFormed.labels.classIds.contained id (Dict.contains_of_get?_eq_some hc)
  obtain ⟨r, hr, rfl, hstored⟩ := h.stored id hnode
  refine ⟨r, hr, rfl, ?_⟩
  have htied := hstored.tied
  rw [hc] at htied
  exact (Option.some.inj htied).symm

/-- Different nodes are tied to different records. -/
theorem Agrees.classId_injective (hs : s.Consistent) {i j c : String}
    (hi : g.classId? i = some c) (hj : g.classId? j = some c) : i = j := by
  obtain ⟨r, hr, rfl, hid⟩ := h.exists_record hi
  obtain ⟨r', hr', rfl, hid'⟩ := h.exists_record hj
  have hget := ((mem_findByProject hs).1 hr).1
  have hget' := ((mem_findByProject hs).1 hr').1
  rw [hid, ← hid', hget'] at hget
  rw [Option.some.inj hget]

end Readers

/-! ## What readers see -/

/-- A node's links with the ids to which their targets are tied. -/
def translatedLinks (g : Graph) (id : String) : List (String × Int × Option String) :=
  (g.linksOf id).toList.flatMap fun (name, links) =>
    links.map fun l => (name, l.position, g.classId? l.target)

/-- A project's records as the image of its graph. -/
structure StoredAs (g : Graph) (s : RecordStore) (p : String) : Prop where
  /-- Every node is tied to a record. -/
  bound : ∀ id ∈ g.identifiers, ∃ c, g.classId? id = some c
  /-- Different nodes are tied to different records. -/
  distinct : ∀ i j c, g.classId? i = some c → g.classId? j = some c → i = j
  /-- There is exactly one record for each node, under the id to which the node is tied. -/
  records : ((s.findByProject p).map fun r => (r.identifier, some r.id)).Perm
    (g.identifiers.map fun id => (id, g.classId? id))
  looked : ∀ r ∈ s.findByProject p, s.getClass? r.id = some r
  kinds : ∀ r ∈ s.findByProject p, r.kind = g.kind r.identifier
  descriptions : ∀ r ∈ s.findByProject p, r.description = g.description? r.identifier
  /-- The methods are the node's in order, with all that is known about them. -/
  methods : ∀ r ∈ s.findByProject p,
    (s.methodsFor r.id).map MethodRecord.method = g.methodsOf r.identifier
  /-- The links are the node's in order. -/
  links : ∀ r ∈ s.findByProject p,
    (s.linksFor r.id).map (fun l => (l.methodName, l.position, some l.targetId)) =
      g.translatedLinks r.identifier
  owners : ∀ r ∈ s.findByProject p, ∀ l ∈ s.linksFor r.id, l.classId = r.id

/-- Where all nodes are tied, no link is lost in translation. -/
theorem WellFormed.map_linkRecords (hg : g.WellFormed)
    (htied : ∀ i ∈ g.identifiers, ∃ c, g.classId? i = some c) (hid : g.classId? id = some owner) :
    (g.linkRecords id).map (fun l => (l.methodName, l.position, some l.targetId)) =
      g.translatedLinks id := by
  unfold translatedLinks
  rw [linkRecords_of_tied hid, List.map_flatMap]
  refine List.flatMap_congr fun e he => ?_
  rw [List.map_filterMap]
  have hbound (l : ParameterLink) (hl : l ∈ e.2) :
      ((g.classId? l.target).map fun target => LinkRecord.mk owner e.1 l.position target).map
          (fun l => (l.methodName, l.position, some l.targetId)) =
        some (e.1, l.position, g.classId? l.target) := by
    obtain ⟨c, hc⟩ :=
      htied l.target ((Dict.contains_iff_mem_keys _ _).1 (hg.contains_target he hl))
    rw [hc]
    rfl
  rw [List.filterMap_congr hbound]
  exact congrFun List.filterMap_eq_map' e.2

/-- Links of one class are the same if they say the same. -/
theorem eq_of_map_linkRecords {ls ms : List LinkRecord} (hls : ∀ l ∈ ls, l.classId = owner)
    (hms : ∀ l ∈ ms, l.classId = owner)
    (h : ls.map (fun l => (l.methodName, l.position, some l.targetId)) =
      ms.map fun l => (l.methodName, l.position, some l.targetId)) : ls = ms := by
  have hrestored {ks : List LinkRecord} (hks : ∀ l ∈ ks, l.classId = owner) :
      (ks.map fun l => (l.methodName, l.position, some l.targetId)).map
        (fun e => LinkRecord.mk owner e.1 e.2.1 (e.2.2.getD "")) = ks := by
    rw [List.map_map]
    refine (List.map_congr_left fun l hl => ?_).trans (List.map_id _)
    obtain ⟨classId, name, position, target⟩ := l
    obtain rfl : classId = owner := hks _ hl
    rfl
  rw [← hrestored hls, h, hrestored hms]

/-- Agreement as readers see it. -/
theorem Agrees.storedAs (h : g.Agrees s p) (hs : s.Consistent) : g.StoredAs s p where
  bound id hid := by
    obtain ⟨r, -, rfl, hstored⟩ := h.stored id ((Dict.contains_iff_mem_keys _ id).2 hid)
    exact ⟨r.id, hstored.tied⟩
  distinct i j c := h.classId_injective hs
  records := by
    have hrecords : ((s.findByProject p).map fun r => (r.identifier, some r.id)).Nodup := by
      have hids := nodup_ids_findByProject hs p
      refine List.pairwise_map.2 ((List.pairwise_map.1 hids).imp fun hne heq => hne ?_)
      exact Option.some.inj (Prod.mk.inj heq).2
    have hnodes : (g.identifiers.map fun id => (id, g.classId? id)).Nodup := by
      refine List.pairwise_map.2 (List.Pairwise.imp ?_ h.wellFormed.nodes_nodup)
      exact fun hne heq => hne (Prod.mk.inj heq).1
    refine (List.perm_ext_iff_of_nodup hrecords hnodes).2 fun e => ?_
    simp only [List.mem_map]
    constructor
    · rintro ⟨r, hr, rfl⟩
      obtain ⟨hnode, htied⟩ := h.covered r hr
      exact ⟨r.identifier, (Dict.contains_iff_mem_keys _ _).1 hnode, by rw [htied]⟩
    · rintro ⟨id, hid, rfl⟩
      obtain ⟨r, hr, rfl, hstored⟩ := h.stored id ((Dict.contains_iff_mem_keys _ id).2 hid)
      exact ⟨r, hr, by rw [hstored.tied]⟩
  looked r hr := ((mem_findByProject hs).1 hr).1
  kinds r hr := (h.nodeStored hs hr).kind
  descriptions r hr := (h.nodeStored hs hr).description
  methods r hr := (h.nodeStored hs hr).methods
  links r hr := by
    have hstored := h.nodeStored hs hr
    rw [hstored.links]
    refine h.wellFormed.map_linkRecords (fun i hi => ?_) hstored.tied
    obtain ⟨r', -, rfl, hstored'⟩ := h.stored i ((Dict.contains_iff_mem_keys _ i).2 hi)
    exact ⟨r'.id, hstored'.tied⟩
  owners r _ := hs.links_owned r.id

/-- For a coherent graph what readers see is all that agreement is about. -/
theorem StoredAs.agrees (h : g.StoredAs s p) (hg : g.Coherent) : g.Agrees s p := by
  have hcovered {r : ClassRecord} (hr : r ∈ s.findByProject p) :
      r.identifier ∈ g.identifiers ∧ g.classId? r.identifier = some r.id := by
    have hmem := h.records.subset (List.mem_map_of_mem hr)
    obtain ⟨id, hid, heq⟩ := List.mem_map.1 hmem
    obtain ⟨hidentifier, htied⟩ := Prod.mk.inj heq
    rw [← hidentifier]
    exact ⟨hid, htied⟩
  refine ⟨hg.wellFormed, hg.shared, fun id hid => ?_, fun r hr => ?_⟩
  · have hmem := h.records.symm.subset
      (List.mem_map_of_mem ((Dict.contains_iff_mem_keys _ id).1 hid))
    obtain ⟨r, hr, heq⟩ := List.mem_map.1 hmem
    obtain ⟨rfl, -⟩ := Prod.mk.inj heq
    have htied := (hcovered hr).2
    refine ⟨r, hr, rfl, htied, h.kinds r hr, h.descriptions r hr, h.methods r hr, ?_⟩
    refine eq_of_map_linkRecords (h.owners r hr)
      (fun l hl => classId_of_mem_linkRecords htied hl) ?_
    rw [h.links r hr, hg.wellFormed.map_linkRecords h.bound htied]
  · obtain ⟨hnode, htied⟩ := hcovered hr
    exact ⟨(Dict.contains_iff_mem_keys _ _).2 hnode, htied⟩

end Graph

end CodeAtlas
