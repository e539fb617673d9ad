import CodeAtlas.Proofs.Run.Afresh
import CodeAtlas.Proofs.Source.Facts
import CodeAtlas.Proofs.Sync.Inquiry
import CodeAtlas.Proofs.Sync.Written

/-!
# Graphs that are up to date

In a language whose files are examined one by one, the graph that an analysis publishes has for
every node the kind and the methods that extraction gives for its file. This file proves that a
sync makes of such a graph another one, if the differences that it gets list what has changed:
the nodes that it passes over have the same files as before.
-/

namespace CodeAtlas

open Fallible

/-- A graph whose nodes are units of a repository's files, each with the kind and the methods that
extraction gives for its file. -/
def Graph.Current (g : Graph) (t : FileTree) (platform : Platform) (lang : Language)
    (repository : Path) : Prop :=
  ∀ id, g.contains id = true → ∃ u ∈ t.unitsIn platform lang repository, u.identifier = id ∧
    t.ExtractsTo lang u.path (g.kind id) (g.methodsOf id)

/-- Whether the units of a repository's files have distinct identifiers. -/
def FileTree.DistinctUnits (t : FileTree) (platform : Platform) (lang : Language)
    (repository : Path) : Prop :=
  ((t.unitsIn platform lang repository).map (·.identifier)).Nodup

/-- Whether the units that are in both of two trees have the same paths in them, or else new paths
that differences list. -/
def Diff.KeepsPaths (d : Diff) (old new : FileTree) (platform : Platform) (lang : Language)
    (repository : Path) : Prop :=
  ∀ u ∈ old.unitsIn platform lang repository, ∀ v ∈ new.unitsIn platform lang repository,
    v.identifier = u.identifier →
      v.path = u.path ∧ v.relativePath new repository = u.relativePath old repository ∨
        ∃ file ∈ d.changed, v.relativePath new repository = .ok file

/-- Whether differences list every source file whose text is another one in the new tree. -/
def Diff.ListsChanges (d : Diff) (old new : FileTree) (platform : Platform) (lang : Language)
    (repository : Path) :
    Prop :=
  ∀ u ∈ old.unitsIn platform lang repository, u ∈ new.unitsIn platform lang repository → ∀ file,
    u.relativePath old repository = .ok file → u.relativePath new repository = .ok file →
      file ∉ d.changed → SourceFile.read new u.path = SourceFile.read old u.path

/-- Whether a sync that finds certain differences cannot overlook a file: everything counts as
changed, or what has changed since an old tree is listed and the units have kept their paths. -/
def Diff.Covers (d : Diff) (old new : FileTree) (platform : Platform) (lang : Language)
    (repository : Path) : Prop :=
  d.full = true ∨
    d.ListsChanges old new platform lang repository ∧ d.KeepsPaths old new platform lang repository

variable {σ : Type} {w w' : Workspace σ} {platform : Platform} {lang : Language} {repository : Path}
    {t : FileTree}
  {x : Examiner}

theorem Survey.Covers.units_eq {s : Survey} (h : s.Covers x t repository)
    (hx : x.Suits platform lang) : s.units = t.unitsIn platform lang repository := by
  obtain ⟨root, files, hroot, hfiles, hunits⟩ := h.found
  rw [hunits, FileTree.unitsIn_eq hx hroot hfiles]

/-- A unit that has been extracted has a node with the kind and the methods of its file. -/
theorem Graph.extractsTo_describedBy {g : Graph} {xs : List Extraction}
    (hnodup : (xs.map (·.unit.identifier)).Nodup) (hok : Extraction.failures xs = [])
    (hmeets : ∀ y ∈ xs, y.Meets fun u facts => t.ExtractsTo lang u.path facts.kind facts.methods)
    {u : SourceUnit} (hu : u ∈ xs.map (·.unit)) (hnode : g.contains u.identifier = true) :
    t.ExtractsTo lang u.path ((g.describedBy xs).kind u.identifier)
      ((g.describedBy xs).methodsOf u.identifier) := by
  obtain ⟨y, hy, rfl⟩ := List.mem_map.1 hu
  cases hout : y.outcome with
  | error f => exact absurd ⟨f, hout⟩ (Extraction.failures_eq_nil.1 hok y hy)
  | ok facts =>
    obtain ⟨hkind, hmethods⟩ := describedBy_at hnodup hy hout hnode
    rw [hkind, hmethods]
    exact hmeets y hy facts hout

/-! ## Analyses -/

/-- An analysis without an enricher in which no extraction fails publishes a graph that is up to
date. -/
theorem FreshAnalysis.runWith_current (hlang : lang = .java ∨ lang = .go) {c : Collaborators σ}
    (hc : c.Plain) {state : ProjectState} {given : Option Examiner} {tools : Tooling}
    (hsuits : ∀ x, ((chooseExaminer given repository state tools :
      Run σ Examiner).run w).1 = .ok x → x.Suits platform lang)
    (hdistinct : w.files.DistinctUnits platform lang repository) {a : FreshAnalysis}
    (hrun : (runWith c repository state given tools).run w = (.ok a, w'))
    (hextracted : a.summary.parseFailures = 0) :
    a.graph.Current w.files platform lang repository := by
  obtain ⟨x, w₁, found, w₂, rs, hchosen, hcommit, hsurveyed, hdone⟩ := runWith_eq_ok hc hrun
  have hx := hsuits x hchosen
  have hfiles : w₁.files = w.files := (Prod.mk.inj ((commitOf_still hc repository).eq hcommit)).1
  have hall := surveyAll_eq_ok hsurveyed
  have hmeets := surveyAll_meets
    (fun root known u => FileTree.ensures_extract hlang hx.language w₁.files root known u.path)
    hsurveyed
  rw [hfiles] at hall hmeets
  have hunits := hall.covers.units_eq hx
  have hok : Extraction.failures found.2 = [] := by
    rw [← List.length_eq_zero_iff, ← hdone.failures]
    exact hextracted
  have hnodup : (found.2.map (·.unit.identifier)).Nodup := by
    have heq := congrArg (List.map (·.identifier)) (hall.units.trans hunits)
    rw [List.map_map] at heq
    exact heq ▸ hdistinct
  intro id hid
  have hnode : found.1.graph.contains id = true := by
    rwa [hdone.graph, Graph.contains_congr (Graph.nodes_bindAll ..),
      Graph.contains_congr (Graph.nodes_describedBy ..)] at hid
  obtain ⟨u, hu, rfl⟩ := List.mem_map.1 ((hall.covers.nodes.contains id).1 hnode)
  have hfacts := Graph.extractsTo_describedBy hnodup hok hmeets (hall.units ▸ hu) hnode
  refine ⟨u, hunits ▸ hu, rfl, ?_⟩
  rw [hdone.graph, Graph.methodsOf_congr (Graph.methods_bindAll ..),
    Graph.kind_congr (Graph.nodeInfo?_congr (Graph.info_bindAll ..) _)]
  exact hfacts

/-! ## What a sync finds out -/

namespace SyncEngine

/-- What a sync has found out about a repository in a language: it has seen some files, whose
units have distinct identifiers, and no extraction has failed. -/
structure Inquiry.Reads (q : Inquiry) (s : RecordStore) (p : String) (files : FileTree)
    (platform : Platform) (lang : Language) (repository : Path) : Prop where
  fits : q.outline.Fits s p q.diff
  sees : q.outline.Sees q.examiner files repository
  suits : q.examiner.Suits platform lang
  distinct : files.DistinctUnits platform lang repository
  units : q.extractions.map (·.unit) = q.outline.units
  meets : ∀ y ∈ q.extractions,
    y.Meets fun u facts => files.ExtractsTo lang u.path facts.kind facts.methods
  extracted : Extraction.failures q.extractions = []

section Reads

variable {q : Inquiry} {s : RecordStore} {p : String} {files : FileTree}
  (hq : q.Reads s p files platform lang repository)
include hq

/-- Every node is a unit, whose file it has. -/
theorem Inquiry.Reads.unit_of_node {id : String} (hid : q.outline.graph.contains id = true) :
    ∃ u ∈ files.unitsIn platform lang repository, u.identifier = id ∧ u ∈ q.outline.survey.units ∧
      ∃ file, u.relativePath files repository = .ok file ∧
        q.outline.graph.sourceFile? id = some file := by
  obtain ⟨hnode, hfile⟩ := hq.sees.nodes id hid
  have hcovers := hq.sees.covers
  have hunits := hcovers.units_eq hq.suits
  obtain ⟨u, hu, rfl⟩ := List.mem_map.1 ((hcovers.nodes.contains id).1 hnode)
  have hdistinct : (q.outline.survey.units.map (·.identifier)).Nodup := hunits ▸ hq.distinct
  obtain ⟨file, hrelative, hnodeFile⟩ := hcovers.nodes.files hdistinct u hu
  exact ⟨u, hunits ▸ hu, rfl, hu, file, hrelative, hfile.trans hnodeFile⟩

/-- No update is demoted. -/
theorem Inquiry.Reads.plan_draft : (q.outline.draft q.extractions).plan = q.outline.plan := by
  unfold Outline.draft
  rw [hq.extracted]
  exact demoteFailed_nil _

/-- The nodes that are updated or added are described as extraction says. -/
theorem Inquiry.Reads.extractsTo_draft {u : SourceUnit} (hu : u ∈ q.outline.survey.units)
    (hid : q.outline.graph.contains u.identifier = true)
    (hwanted : u.identifier ∈ q.outline.plan.updated ∨ u.identifier ∈ q.outline.plan.added) :
    files.ExtractsTo lang u.path ((q.outline.draft q.extractions).graph.kind u.identifier)
      ((q.outline.draft q.extractions).graph.methodsOf u.identifier) := by
  have hunits := hq.sees.covers.units_eq hq.suits
  have hsome : List.Sublist q.outline.units q.outline.survey.units :=
    List.filter_sublist.trans List.filter_sublist
  have hnodup : (q.extractions.map (·.unit.identifier)).Nodup := by
    have heq := congrArg (List.map (·.identifier)) hq.units
    rw [List.map_map] at heq
    refine heq ▸ List.Nodup.sublist (hsome.map _) ?_
    rw [hunits]
    exact hq.distinct
  refine Graph.extractsTo_describedBy hnodup hq.extracted hq.meets ?_ hid
  rw [hq.units]
  refine List.mem_filter.2 ⟨List.mem_filter.2 ⟨hu, List.contains_iff_mem.2 ?_⟩, hid⟩
  exact List.mem_append.2 hwanted

end Reads

/-! ## Syncs -/

/-- Methods that are stored without texts carry none. -/
theorem carryTexts_of_textless {rows : List MethodRecord} {ms : List Method}
    (hrows : ∀ r ∈ rows, r.method.Plain) (hms : ∀ m ∈ ms, m.Plain) : carryTexts rows ms = ms := by
  rw [Graph.carryTexts_of_plain rows hms]
  refine (List.map_congr_left fun m hm => ?_).trans (List.map_id ms)
  obtain ⟨hdescription, hlogic⟩ := hms m hm
  obtain ⟨name, description, businessLogic, _⟩ := m
  obtain rfl : description = none := hdescription
  obtain rfl : businessLogic = [] := hlogic
  unfold Graph.withStoredTexts
  dsimp only
  cases hget : (Dict.ofList (rows.map fun r => (r.name, r))).get? name with
  | none => rfl
  | some r =>
    obtain ⟨r', hr, heq⟩ := List.mem_map.1 (Dict.mem_of_get?_ofList hget)
    obtain ⟨-, rfl⟩ := Prod.mk.inj heq
    obtain ⟨hdescription, hlogic⟩ := hrows r' hr
    obtain ⟨_, _, _, description, businessLogic, _⟩ := r'
    obtain rfl : description = none := hdescription
    obtain rfl : businessLogic = [] := hlogic
    rfl

section Staged

variable {t : Staged} {a : StoreAccess} {p head : String} {before : Graph} {q : Inquiry}
  {old files : FileTree} (ht : t.Fits a p head) (ha : a.store.Consistent)
  (h : before.Agrees a.store p) (hbefore : before.Current old platform lang repository)
include ht ha h hbefore

/-- A node that is updated has the kind and the methods of the draft. -/
theorem Staged.Fits.updated_eq_draft {id : String} (hid : id ∈ t.draft.plan.updated) :
    t.graph.kind id = t.draft.graph.kind id ∧
      t.graph.methodsOf id = t.draft.graph.methodsOf id := by
  obtain ⟨r, hr, rfl⟩ := ht.draft.exists_record (Or.inl hid)
  have hlabels := ht.labelledFrom.updated r (ht.draft.finds (h.distinct ha) hr) hid
  obtain ⟨u, -, -, hfacts⟩ := hbefore _ (h.covered r hr).1
  have hrows : ∀ m ∈ a.store.methodsFor r.id, m.method.Plain := by
    intro m hm
    refine hfacts.plain _ ?_
    rw [← (h.nodeStored ha hr).methods]
    exact List.mem_map_of_mem hm
  constructor
  · exact Graph.kind_of_nodeInfo? hlabels.info
  · rw [hlabels.methods, carryTexts_of_textless hrows (ht.draft.bare.texts _)]

/-- A unit that is passed over is extracted to what it was extracted to before. -/
theorem Staged.Fits.unchanged_current (hlang : lang = .java ∨ lang = .go)
    (hq : q.Reads a.store p files platform lang repository) (hplan : t.draft.plan = q.outline.plan)
    (hcovers : q.diff.Covers old files platform lang repository) {u : SourceUnit}
    (hu : u ∈ files.unitsIn platform lang repository)
    (hfile : ∃ file, u.relativePath files repository = .ok file ∧
      q.outline.graph.sourceFile? u.identifier = some file)
    (hid : u.identifier ∈ t.draft.plan.unchanged) :
    files.ExtractsTo lang u.path (t.graph.kind u.identifier) (t.graph.methodsOf u.identifier) := by
  have hlabels := (ht.labelled h ha).unchanged _ hid
  obtain ⟨r, hr, heq⟩ := ht.draft.exists_record (Or.inr hid)
  obtain ⟨v, hv, hvid, hfacts⟩ := hbefore u.identifier (heq ▸ (h.covered r hr).1)
  obtain ⟨file, hrelative, hnode⟩ := hfile
  have hsorts := hq.fits.plan
  rw [← hplan] at hsorts
  -- otherwise it would be updated
  have hpassed : ¬SyncPartition.isChanged q.outline.graph q.diff.changed q.diff.full
      u.identifier = true := fun hchanged =>
    hsorts.fits.apart _ ((hsorts.updated _).2 ⟨(hsorts.fits.kept _).1 (Or.inr hid), hchanged⟩) hid
  unfold SyncPartition.isChanged at hpassed
  rw [hnode] at hpassed
  simp only [Bool.or_eq_true, List.contains_iff_mem, not_or] at hpassed
  obtain ⟨hlists, hkeeps⟩ := hcovers.resolve_left hpassed.1
  obtain ⟨hpath, hsame⟩ := (hkeeps v hv u hu hvid.symm).resolve_right fun hlisted => by
    obtain ⟨file', hmem, hrelative'⟩ := hlisted
    rw [hrelative] at hrelative'
    exact hpassed.2 (Except.ok.inj hrelative' ▸ hmem)
  obtain rfl : u = v := by
    obtain ⟨path, identifier⟩ := u
    obtain rfl : path = v.path := hpath
    obtain rfl : v.identifier = identifier := hvid
    rfl
  rw [hlabels.kind, hlabels.methods]
  exact hfacts.congr hlang (hlists u hv hu file (hsame ▸ hrelative) hrelative hpassed.2)

/-- What is staged is up to date, if the former graph was so and agreed with the store. -/
theorem Staged.Fits.current (hlang : lang = .java ∨ lang = .go) (hgoes : t.GoesBy q)
    (hq : q.Reads a.store p files platform lang repository)
    (hcovers : q.diff.Covers old files platform lang repository) :
    t.graph.Current files platform lang repository := by
  have hlabelled := ht.labelled h ha
  have hplan : t.draft.plan = q.outline.plan := by rw [hgoes.draft, hq.plan_draft]
  intro id hid
  have hnode : q.outline.graph.contains id = true := by
    rwa [Graph.contains_congr hlabelled.nodes, hgoes.draft,
      Graph.contains_congr (q.outline.nodes_draft q.extractions)] at hid
  obtain ⟨u, hu, rfl, hunit, hfile⟩ := hq.unit_of_node hnode
  refine ⟨u, hu, rfl, ?_⟩
  have hfits := hq.fits.plan.fits
  have hdraft := hq.extractsTo_draft hunit hnode
  rw [← hgoes.draft] at hdraft
  rw [← hplan] at hdraft hfits
  by_cases hstored : u.identifier ∈ q.outline.records.keys
  · rcases (hfits.kept u.identifier).2 ⟨hnode, hstored⟩ with hupdated | hunchanged
    · obtain ⟨hkind, hmethods⟩ := ht.updated_eq_draft ha h hbefore hupdated
      rw [hkind, hmethods]
      exact hdraft (Or.inl hupdated)
    · exact ht.unchanged_current ha h hbefore hlang hq hplan hcovers hu hfile hunchanged
  · have hadded := (hfits.added u.identifier).2 ⟨hnode, hstored⟩
    have hlabels := hlabelled.added _ hadded
    rw [hlabels.kind, hlabels.methods]
    exact hdraft (Or.inr hadded)

end Staged

/-- A sync of a repository in a language, whose files at every commit are given: they are those
of the commit that is checked out, the units have distinct identifiers, no enricher is asked and
no extraction fails. From the anchor on the changes are listed, and the units that were there have
kept their paths, unless everything counts as changed. -/
structure Follows (e : SyncEngine σ) (platform : Platform) (lang : Language)
    (tree : String → FileTree)
    (state : ProjectState) (w : Workspace σ) : Prop where
  plain : e.collaborators.Plain
  suits : ∀ x, FreshAnalysis.examinerFor w.files (Path.ofText state.repoPath) state.language
    e.tools = .ok x → x.Suits platform lang
  distinct : w.files.DistinctUnits platform lang (Path.ofText state.repoPath)
  clean : ∀ q w₁, (e.inquire state).run (held state w) = (.ok q, w₁) → w.files = tree q.head
  extracted : ∀ q w₁, (e.inquire state).run (held state w) = (.ok q, w₁) →
    Extraction.failures q.extractions = []
  changes : ∀ q w₁, (e.inquire state).run (held state w) = (.ok q, w₁) → q.diff.full = true ∨
    ∃ anchor, state.anchor = some anchor ∧
      q.diff.ListsChanges (tree anchor) (tree q.head) platform lang (Path.ofText state.repoPath) ∧
      q.diff.KeepsPaths (tree anchor) (tree q.head) platform lang (Path.ofText state.repoPath)

/-- Such a sync, if it is completed, brings a graph that was up to date at the anchor up to date
with the files. -/
theorem Follows.sync_current {e : SyncEngine σ} {tree : String → FileTree} {state : ProjectState}
    (h : e.Follows platform lang tree state w) (hlang : lang = .java ∨ lang = .go)
    (hw : w.records.store.Consistent) {before : Graph}
    (hagrees : before.Agrees w.records.store state.id) {old : FileTree}
    (hold : ∀ anchor, state.anchor = some anchor → old = tree anchor)
    (hbefore : before.Current old platform lang (Path.ofText state.repoPath)) {r : SyncResult}
    (hrun : (e.sync state).run w = (.ok r, w')) (hcompleted : r.status = .completed) :
    ∃ head g, w.files = tree head ∧ w'.registry.get? state.id = some g ∧
      r.state = state.advance e.clock (some head) g.toText ∧
      g.Current w.files platform lang (Path.ofText state.repoPath) := by
  have he := h.plain.discreet
  have hstill := h.plain.still e.versionControl rfl
  obtain ⟨head, w₁, t, w₂, g, counts, advanced, w₃, hhead, -, hstage, hcommit, rfl, rfl⟩ :=
    sync_completed hrun hcompleted
  obtain ⟨q, w₄, hinquired, hgoes, houtline, hunits⟩ := stage_inquired he hhead hstage
  obtain ⟨v₁, v₂, hhead', hdiff, hx, hexamined⟩ := inquire_eq_ok hinquired
  obtain rfl : head = q.head := Except.ok.inj (Prod.mk.inj (hhead.symm.trans hhead')).1
  have htree : Run.tree v₂ = Run.tree (held state w) :=
    ((hstill.diff _ _ _).eq hdiff).trans ((hstill.head _).eq hhead')
  have hfiles : v₂.files = w.files := (Prod.mk.inj htree).1
  rw [hfiles] at hx
  have hsuits := h.suits _ hx
  obtain ⟨hsees, hmeets⟩ := examined_sees (fun now root known u =>
    FileTree.ensures_extract hlang hsuits.language now root known u.path) hexamined
  rw [hfiles] at hsees hmeets
  obtain ⟨hfits, -, -⟩ := stage_eq_ok he hstage
  rw [(head_eq he hhead).1] at hfits
  have hq : q.Reads w.records.store state.id w.files platform lang (Path.ofText state.repoPath) :=
    ⟨houtline, hsees, hsuits, h.distinct, hunits, hmeets, h.extracted q w₄ hinquired⟩
  have hclean := h.clean q w₄ hinquired
  have hcovers : q.diff.Covers old w.files platform lang (Path.ofText state.repoPath) := by
    refine (h.changes q w₄ hinquired).imp_right ?_
    rintro ⟨anchor, hanchor, hlists, hkeeps⟩
    rw [hold anchor hanchor, hclean]
    exact ⟨hlists, hkeeps⟩
  obtain ⟨hresult, -⟩ := commit_plain h.plain hcommit
  cases hresult
  exact ⟨q.head, t.graph, hclean, (Registry.get?_put ..).trans (if_pos rfl), rfl,
    hfits.current hw hagrees hbefore hlang hgoes hq hcovers⟩

end SyncEngine

end CodeAtlas
