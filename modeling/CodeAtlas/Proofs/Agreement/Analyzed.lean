import CodeAtlas.Proofs.Agreement.Enriched
import CodeAtlas.Proofs.Agreement.Written
import CodeAtlas.Proofs.Run.Analysis

/-!
# Agreement after an analysis

A fresh analysis deletes all records of its project, writes those of its graph under new ids and
has the nodes enriched. This file proves that the graph which it publishes agrees with the store.
-/

namespace CodeAtlas

open RecordStore

/-- Tying nodes keeps a graph well-formed. -/
theorem Graph.WellFormed.bindAll {g : Graph} (hg : g.WellFormed) (rs : List ClassRecord) :
    (g.bindAll rs).WellFormed := by
  unfold Graph.bindAll
  induction rs generalizing g with
  | nil => exact hg
  | cons r rest ih => exact ih (hg.bindClassId r.identifier r.id)

/-- Methods without texts share theirs. -/
theorem Method.sharedTexts_of_plain {ms : List Method} (h : ∀ m ∈ ms, m.Plain) :
    SharedTexts ms := by
  intro m hm n hn _
  rw [(h m hm).1, (h m hm).2, (h n hn).1, (h n hn).2]
  exact ⟨rfl, rfl⟩

/-- Nothing is stored about a class whose id is still to be issued. -/
theorem StoreAccess.Sound.cleared_of_lt {a : StoreAccess} (ha : a.Sound) {n : Nat}
    (h : a.issued < n) :
    a.store.rowsOf (idOfNumber n) = .empty ∧ a.store.linksFor (idOfNumber n) = [] := by
  have hnone := ha.getClass?_of_lt h
  exact ⟨ha.consistent.rows_stored _ hnone, ha.inside.linksFor_of_none hnone⟩

namespace FreshAnalysis

variable {σ : Type} {w w' : Workspace σ} {p : String}

/-- The nodes of a bare graph that are tied to records under new ids are staged, where nothing
of the project is stored. -/
theorem stagedOn_bindAll {g : Graph} (hg : g.Bare) {a : StoreAccess} (ha : a.Sound)
    (hnothing : a.store.findByProject p = []) (commit : Option String) :
    (g.bindAll (stagedRecords p commit g a.issued g.nodes.toList)).StagedOn a.store p
      (stagedRecords p commit g a.issued g.nodes.toList) := by
  have hfiles := files_stagedRecords p commit g a.issued g.nodes.toList
  have hids := ids_stagedRecords p commit g a.issued g.nodes.toList
  have hmem {r : ClassRecord} (hr : r ∈ stagedRecords p commit g a.issued g.nodes.toList) :=
    mem_stagedRecords p commit g hr
  generalize stagedRecords p commit g a.issued g.nodes.toList = rs at hfiles hids hmem ⊢
  have hnames : rs.map (·.identifier) = g.nodes.keys := by
    unfold Dict.keys
    change _ = g.nodes.toList.map (·.1)
    rw [← hfiles, List.map_map]
    rfl
  have hnodup : (rs.map (·.identifier)).Nodup := hnames ▸ hg.wellFormed.nodes_nodup
  have hnode {r : ClassRecord} (hr : r ∈ rs) : g.contains r.identifier = true := by
    refine (Dict.contains_iff_mem_keys _ _).2 ?_
    rw [← hnames]
    exact List.mem_map_of_mem hr
  have hcleared {r : ClassRecord} (hr : r ∈ rs) :
      a.store.rowsOf r.id = .empty ∧ a.store.linksFor r.id = [] := by
    obtain ⟨k, hlo, -, hk⟩ := mem_idsFrom (hmem hr).2.2.2
    rw [hk]
    exact ha.cleared_of_lt hlo
  have hinfo (id : String) : (g.bindAll rs).nodeInfo? id = g.nodeInfo? id :=
    Graph.nodeInfo?_congr (g.info_bindAll rs) id
  constructor
  · exact hg.wellFormed.bindAll rs
  · intro id
    rw [Graph.methodsOf_congr (g.methods_bindAll rs)]
    exact Method.sharedTexts_of_plain (hg.texts id)
  · rw [hids]
    exact nodup_idsFrom _ _
  · exact fun r hr => (hmem hr).1
  · exact fun r hr => g.classId?_bindAll_of_mem hnodup hr (hnode hr)
  · intro r hr
    rw [(hmem hr).2.1, Graph.kind_congr (hinfo _)]
  · intro r hr
    rw [(hmem hr).2.2.1, Graph.description?_congr (hinfo _), hg.descriptions]
  · exact fun r hr => (hcleared hr).1
  · exact fun r hr => (hcleared hr).2
  · intro id hid
    rw [Graph.contains_congr (g.nodes_bindAll rs)] at hid
    have hkey := (Dict.contains_iff_mem_keys _ _).1 hid
    rw [← hnames] at hkey
    obtain ⟨r, hr, heq⟩ := List.mem_map.1 hkey
    exact Or.inl ⟨r, hr, heq⟩
  · intro r hr
    rw [hnothing] at hr
    cases hr

/-- The graph whose records have replaced those of its project agrees with the store. -/
theorem replaceRecords_agrees (hw : w.records.Sound) {commit : Option String} {g h : Graph}
    (hg : g.Bare)
    (hrun : (replaceRecords (Snapshot.take w.records.store p) commit g : Run σ Graph).run w =
      (.ok h, w')) : h.Agrees w'.records.store p := by
  have hadv := (replaceRecords_advances (p := p) hw commit hg.untied).records
  rw [hrun] at hadv
  obtain ⟨w₁, rs, methods, hdelete, rfl, rfl, rfl, hwrite⟩ := replaceRecords_eq_ok hrun
  have hcleared : w₁.records.store =
      w.records.store.deleteClasses ((w.records.store.findByProject p).map (·.id)) :=
    deleteClasses_eq_ok hdelete
  have hown : ∀ id ∈ (w.records.store.findByProject p).map (·.id),
      ¬w.records.store.Foreign p id := fun id hid => not_foreign_of_mem_ids hw.consistent hid
  have hadv₁ := deleteClasses_advances (σ := σ) hw hown
  rw [show (deleteClasses ((w.records.store.findByProject p).map (·.id)) : Run σ Unit).run w =
    (.ok (), w₁) from hdelete] at hadv₁
  have hsound := hadv₁.records.sound
  have hnothing : w₁.records.store.findByProject p = [] := by
    rw [List.eq_nil_iff_forall_not_mem]
    intro r hr
    have howns := Cleared.owns_of_mem hsound.consistent hr
    rw [hcleared] at howns
    exact (Cleared.of_deleteClasses hw.consistent hw.inside (.refl p _)).nothing r.id howns
  have hstaged := stagedOn_bindAll hg hsound hnothing commit
  have hwritten := writeStaged_eq_ok hwrite
  rw [hwritten]
  refine hstaged.agrees _ hsound.consistent ?_
  have hconsistent := hadv.sound.consistent
  rwa [hwritten] at hconsistent

/-- So does the graph all of whose records are written, with whatever texts it got. -/
theorem store_agrees {c : Collaborators σ} (hc : c.Discreet) (hw : w.records.Sound)
    (hfree : c.enricher = none ∨ w.records.Unrefused) {g : Graph} (hg : g.Bare)
    {repository : Path} {e : Examiner} {state : ProjectState} {commit : Option String}
    {r : Graph × EnrichmentCounts × ProjectState}
    (hrun : (store c repository e state commit (Snapshot.take w.records.store p) g).run w =
      (.ok r, w')) : r.1.Agrees w'.records.store p := by
  obtain ⟨h, w₁, enriched, w₂, hreplace, henrich, hkept, rfl⟩ := store_eq_ok hc hrun
  have hadv := (replaceRecords_advances (p := p) hw commit hg.untied).records
  rw [hreplace] at hadv
  have hagrees := replaceRecords_agrees hw hg hreplace
  rw [hkept]
  rcases enrichAll_eq_ok henrich with ⟨rfl, rfl⟩ | ⟨enricher, henricher, henrich⟩
  · exact hagrees
  · rw [henricher] at hfree
    have hunrefused := hfree.resolve_left (Option.some_ne_none _)
    exact hagrees.enrich hadv.sound (hadv.refusal.trans hunrefused) (hc.enricher _ henricher)
      henrich

/-- The graph that an analysis publishes agrees with the store, if nobody's texts are refused. -/
theorem runWith_agrees {c : Collaborators σ} (hc : c.Discreet) (hw : w.records.Sound)
    (hfree : c.enricher = none ∨ w.records.Unrefused) {repository : Path} {state : ProjectState}
    {given : Option Examiner} {tools : Tooling} {a : FreshAnalysis}
    (hrun : (runWith c repository state given tools).run w = (.ok a, w')) :
    a.graph.Agrees w'.records.store state.id := by
  obtain ⟨e, f, counts, w₁, w₂, hrecords, hbare, hstore, hkept⟩ := runWith_stored hc hrun
  rw [← hrecords] at hw hfree
  rw [hkept]
  exact store_agrees hc hw hfree hbare hstore

/-- Whatever the store refuses, an analysis publishes a coherent graph and advances the project's
state to it. -/
theorem runWith_coherent {c : Collaborators σ} (hc : c.Discreet) {repository : Path}
    {state : ProjectState} {given : Option Examiner} {tools : Tooling} {a : FreshAnalysis}
    (hrun : (runWith c repository state given tools).run w = (.ok a, w')) :
    a.graph.Coherent ∧
      ∃ commit, a.summary.state = state.advance c.clock commit a.graph.toText := by
  obtain ⟨e, f, counts, w₁, w₂, -, hbare, hstore, -⟩ := runWith_stored hc hrun
  obtain ⟨h, w₃, enriched, w₄, hreplace, henrich, -, heq⟩ := store_eq_ok hc hstore
  obtain ⟨hgraph, hrest⟩ := Prod.mk.inj heq
  rw [hgraph]
  refine ⟨?_, f.commit, (Prod.mk.inj hrest).2⟩
  obtain ⟨w₅, rs, methods, -, -, rfl, -, -⟩ := replaceRecords_eq_ok hreplace
  have hbound : (f.graph.bindAll rs).Coherent := by
    refine ⟨hbare.wellFormed.bindAll rs, fun id => ?_⟩
    rw [Graph.methodsOf_congr (f.graph.methods_bindAll rs)]
    exact Method.sharedTexts_of_plain (hbare.texts id)
  rcases enrichAll_eq_ok henrich with ⟨rfl, -⟩ | ⟨enricher, -, henrich⟩
  · exact hbound
  · exact hbound.enrich henrich

end FreshAnalysis

end CodeAtlas
