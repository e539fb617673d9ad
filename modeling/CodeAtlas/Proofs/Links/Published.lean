import CodeAtlas.Proofs.Agreement.Synced
import CodeAtlas.Proofs.Links.Examined

/-!
# Links of published graphs

Without an enricher and while the files stay where they are, an analysis publishes the graph that
it examined, and a sync the graph that it staged. This file says what links the published nodes
have: those that their files make, or for a node that a sync passed over those that it had
before, less the ones to nodes that are gone.
-/

namespace CodeAtlas

open Fallible

variable {σ : Type} {w w' : Workspace σ}

/-! ## Collaborators that leave the files alone -/

/-- The files, and those that are going to vanish. -/
def Run.tree (w : Workspace σ) : FileTree × List Path := (w.files, w.vanishing)

/-- Version control that leaves the files alone. -/
structure VersionControl.Still (v : VersionControl σ) : Prop where
  head : ∀ repository, Keeps Run.tree (v.head repository)
  diff : ∀ repository old new, Keeps Run.tree (v.diff repository old new)

/-- Git does so. -/
theorem VersionControl.git_still : (VersionControl.git : VersionControl σ).Still :=
  ⟨fun _ _ => rfl, fun _ _ _ _ => rfl⟩

/-- Collaborators that keep to themselves, with version control that leaves the files alone and
without an enricher. -/
structure Collaborators.Plain (c : Collaborators σ) : Prop where
  discreet : c.Discreet
  still : ∀ v, c.versionControl = some v → v.Still
  unenriched : c.enricher = none

/-! ## Analyses -/

namespace FreshAnalysis

variable {c : Collaborators σ} {repository : Path} {state : ProjectState}
  {given : Option Examiner} {tools : Tooling}

/-- Choosing an examiner changes nothing. -/
theorem run_chooseExaminer (given : Option Examiner) (repository : Path) (state : ProjectState)
    (tools : Tooling) (w : Workspace σ) :
    ((chooseExaminer given repository state tools : Run σ Examiner).run w).2 = w := by
  cases given <;> rfl

theorem commitOf_still (hc : c.Plain) (repository : Path) :
    Keeps Run.tree (commitOf c repository) :=
  keeps_commitOf fun v hv => (hc.still v hv).head repository

/-- The records of all nodes of a graph, under the ids after a number of issued ones. -/
def recordsOfAll (project : String) (commit : Option String) (g : Graph) (n : Nat) :
    List ClassRecord :=
  stagedRecords project commit g n g.nodes.toList

/-- What an analysis without an enricher stores and what it makes of the state. -/
theorem store_plain (hc : c.Plain) {x : Examiner} {commit : Option String} {snap : Snapshot}
    {g : Graph} {r : Graph × EnrichmentCounts × ProjectState}
    (hrun : (store c repository x state commit snap g).run w = (.ok r, w')) :
    ∃ h rs, rs = recordsOfAll snap.project commit g w.records.issued ∧ h = g.bindAll rs ∧
      r = (h, ⟨0, 0⟩, state.advance c.clock commit h.toText) ∧
      w'.records.store = (w.records.store.deleteClasses (snap.classes.map (·.id))).withStaged h rs
        (allRowsFrom h (w.records.issued + rs.length) rs) := by
  obtain ⟨h, w₁, enriched, w₂, hreplace, henrich, hkept, rfl⟩ := store_eq_ok hc.discreet hrun
  obtain ⟨rfl, rfl⟩ := (enrichAll_eq_ok henrich).resolve_right fun ⟨_, henricher, _⟩ => by
    rw [hc.unenriched] at henricher
    cases henricher
  obtain ⟨w₀, rs, methods, hdelete, hrs, rfl, rfl, hwrite⟩ := replaceRecords_eq_ok hreplace
  have hlength : rs.length = g.nodes.toList.length := by
    have hids := congrArg List.length
      (ids_stagedRecords snap.project commit g w₀.records.issued g.nodes.toList)
    rw [← hrs] at hids
    simpa [StoreAccess.idsFrom] using hids
  rw [issued_deleteClasses hdelete] at hrs hwrite
  refine ⟨g.bindAll rs, rs, hrs, rfl, rfl, ?_⟩
  rw [hkept, writeStaged_eq_ok hwrite, hlength]
  dsimp only
  rw [deleteClasses_eq_ok hdelete]

/-- An analysis of a Java repository in which no extraction fails and no enricher is asked. -/
structure OfJava (c : Collaborators σ) (platform : Platform) (repository : Path)
    (state : ProjectState)
    (given : Option Examiner) (tools : Tooling) (w : Workspace σ) : Prop where
  plain : c.Plain
  legible : w.files.Legible platform repository
  java : ∀ x, ((chooseExaminer given repository state tools : Run σ Examiner).run w).1 =
    .ok x → x.Suits platform .java

/-- It publishes a graph whose nodes are linked as their files say. -/
theorem OfJava.linkedFrom (h : OfJava c platform repository state given tools w) {a : FreshAnalysis}
    (hrun : (runWith c repository state given tools).run w = (.ok a, w')) :
    a.graph.LinkedFrom w.files platform repository := by
  obtain ⟨hc, hw, hjava⟩ := h
  unfold runWith run at hrun
  obtain ⟨e, w₁, hchoose, hrun⟩ := Fallible.bind_eq_ok.1 hrun
  obtain ⟨f, w₂, hfind, hrun⟩ := Fallible.bind_eq_ok.1 hrun
  obtain ⟨⟨g, counts, advanced⟩, w₃, hstore, hrun⟩ := Fallible.bind_eq_ok.1 hrun
  obtain ⟨_, w₄, -, hrun⟩ := Fallible.bind_eq_ok.1 hrun
  have he : e.Suits platform .java := hjava e (by rw [hchoose])
  have hw₁ := run_chooseExaminer given repository state tools w
  rw [hchoose] at hw₁
  obtain rfl : w₁ = w := hw₁
  unfold find at hfind
  obtain ⟨commit, w₅, hcommit, hfind⟩ := Fallible.bind_eq_ok.1 hfind
  obtain ⟨⟨survey, examined, failed⟩, w₆, hexamined, hfind⟩ := Fallible.bind_eq_ok.1 hfind
  obtain ⟨snapshot, w₇, -, hfind⟩ := Fallible.bind_eq_ok.1 hfind
  have hfiles : w₅.files = w₁.files :=
    (Prod.mk.inj ((commitOf_still hc repository).eq hcommit)).1
  rw [← hfiles] at hw ⊢
  obtain ⟨hsurveyable, hcontains, hlinks⟩ := examineAll_java he hw hexamined
  cases hfind
  obtain ⟨_, rs, -, rfl, hresult, -⟩ := store_plain hc (Run.orRestore_eq_ok hstore)
  cases hresult
  cases hrun
  refine ⟨hsurveyable, fun j => ?_, fun u hu => ?_⟩
  · rw [← hcontains j]
    exact Bool.eq_iff_iff.1 (Graph.contains_congr (Graph.nodes_bindAll ..) j)
  · exact (Graph.linksOf_congr (Graph.links_bindAll ..) _).trans (hlinks u hu)

end FreshAnalysis

/-! ## Syncs -/

/-- Two units, each in a tree of its own, whose files have the same contents if they can be
read. -/
def SourceUnit.SameContent (old new : FileTree) (u v : SourceUnit) : Prop :=
  ∀ f g, SourceFile.read old u.path = .ok f → SourceFile.read new v.path = .ok g →
    f.content = g.content ∧ f.tree = g.tree

/-- Differences between two trees that miss no source file: one that is not listed has the same
contents in both, unless every file counts as changed. -/
def Diff.MissesNothing (d : Diff) (platform : Platform) (repository : Path) (old new : FileTree) :
    Prop :=
  d.full = false → ∀ u ∈ old.javaUnits platform repository, ∀ v ∈ new.javaUnits platform repository,
    ∀ file,
    u.relativePath old repository = .ok file → v.relativePath new repository = .ok file →
      file ∉ d.changed → u.SameContent old new v

/-- What a sync of a Java repository makes of a former graph: the nodes are the units; those that
it examined are linked as their files say, and the others as before, less the links to nodes that
are gone. -/
structure Graph.SyncedFrom (before now : Graph) (t : FileTree) (platform : Platform)
    (repository : Path) (diff : Diff)
    (ids : List String) : Prop where
  surveyable : t.Surveyable platform repository
  contains : ∀ j, now.contains j = true ↔ j ∈ (t.javaUnits platform repository).map (·.identifier)
  examined : ∀ u ∈ t.javaUnits platform repository, u.identifier ∈ ids →
    now.linksOf u.identifier = t.javaLinks platform repository u
  passed : ∀ u ∈ t.javaUnits platform repository, u.identifier ∉ ids →
    before.contains u.identifier = true ∧
      now.linksOf u.identifier = keepLinks now.contains (before.linksOf u.identifier) ∧
      diff.full = false ∧ ∃ file, u.relativePath t repository = .ok file ∧ file ∉ diff.changed

namespace SyncEngine

variable {e : SyncEngine σ} {state : ProjectState} {before : Graph}

/-- Whether the differences that a sync is going to get miss nothing between the files of the
anchor and those that are there. -/
def MissesNothing (e : SyncEngine σ) (platform : Platform) (state : ProjectState) (old : FileTree)
    (w : Workspace σ) :
    Prop :=
  ∀ head w₁ diff w₂,
    (e.versionControl.head (Path.ofText state.repoPath)).run w = (.ok head, w₁) →
    (e.versionControl.diff (Path.ofText state.repoPath) state.anchor head).run w₁ =
      (.ok diff, w₂) → diff.MissesNothing platform (Path.ofText state.repoPath) old w.files

/-- A sync of a Java repository in which no extraction fails, no enricher is asked and all files
stay where they are. -/
structure OfJava (e : SyncEngine σ) (platform : Platform) (state : ProjectState) (w : Workspace σ) :
    Prop where
  plain : e.collaborators.Plain
  legible : w.files.Legible platform (Path.ofText state.repoPath)
  lasting : w.vanishing = []
  java : ∀ x, FreshAnalysis.examinerFor w.files (Path.ofText state.repoPath) state.language
    e.tools = .ok x → x.Suits platform .java

/-- Such a sync has examined the files as they are when it is staged. -/
theorem OfJava.examined (h : e.OfJava platform state w) {head : String} {t : Staged}
    (hrun : (e.stage state head).run w = (.ok t, w')) :
    t.draft.Examined w.files platform (Path.ofText state.repoPath) t.diff ∧
      ∃ w₁, (e.versionControl.diff (Path.ofText state.repoPath) state.anchor head).run w =
        (.ok t.diff, w₁) := by
  obtain ⟨he, hw, hvanishing, hjava⟩ := h
  unfold stage at hrun
  dsimp only at hrun
  obtain ⟨diff, w₁, hdiff, hrun⟩ := Fallible.bind_eq_ok.1 hrun
  obtain ⟨hfiles, hvanishing₁⟩ :=
    Prod.mk.inj (((he.still e.versionControl rfl).diff _ _ _).eq hdiff)
  rw [Run.run_files_bind] at hrun
  obtain ⟨x, w₂, hx, hrun⟩ := Fallible.bind_eq_ok.1 hrun
  obtain ⟨hfound, rfl⟩ := Prod.mk.inj hx
  obtain ⟨d, w₃, hdraft, hrun⟩ := Fallible.bind_eq_ok.1 hrun
  obtain ⟨⟨g, updated, added⟩, w₄, -, hrun⟩ := Fallible.bind_eq_ok.1 hrun
  obtain ⟨methods, w₅, -, hrun⟩ := Fallible.bind_eq_ok.1 hrun
  obtain ⟨snapshot, w₆, -, hrun⟩ := Fallible.bind_eq_ok.1 hrun
  rw [← hfiles] at hw hjava ⊢
  have hexamined := draft_java (hjava x hfound) hw (hvanishing₁.trans hvanishing) hdraft
  cases hrun
  exact ⟨hexamined, w₁, hdiff⟩

/-- What is staged makes of the former graph what a sync makes of it. -/
theorem Staged.Fits.syncedFrom {t : Staged} {a : StoreAccess} {p head : String}
    (ht : t.Fits a p head) (ha : a.Sound) (h : before.Agrees a.store p) {files : FileTree}
    {repository : Path} (hexamined : t.draft.Examined files platform repository t.diff) :
    before.SyncedFrom t.graph files platform repository t.diff
      (t.draft.plan.added ++ t.draft.plan.updated) := by
  have hlabelled := ht.labelled h ha.consistent
  have hd := ht.draft
  have hcontains (j : String) : t.graph.contains j = true ↔
      j ∈ (files.javaUnits platform repository).map (·.identifier) := by
    rw [Graph.contains_congr hlabelled.nodes]
    exact hexamined.contains j
  refine ⟨hexamined.surveyable, hcontains, fun u hu hmem => ?_, fun u hu hmem => ?_⟩
  · rw [List.mem_append] at hmem
    rw [← hexamined.linked u hu hmem]
    rcases hmem with hadded | hupdated
    · exact (hlabelled.added _ hadded).links
    · exact (hlabelled.updated _ hupdated).links
  · rw [List.mem_append, not_or] at hmem
    have hnode : t.draft.graph.contains u.identifier = true :=
      (hexamined.contains _).2 (List.mem_map_of_mem hu)
    have hkey : u.identifier ∈ t.draft.records.keys := by
      by_contra hout
      exact hmem.1 ((hd.plan.added _).2 ⟨hnode, hout⟩)
    have hunchanged : u.identifier ∈ t.draft.plan.unchanged :=
      ((hd.plan.kept _).2 ⟨hnode, hkey⟩).resolve_left hmem.2
    rw [hd.records, mem_keys_recordsByIdentifier] at hkey
    obtain ⟨r, hr, heq⟩ := hkey
    refine ⟨heq ▸ (h.covered r hr).1, (hlabelled.unchanged _ hunchanged).links, ?_⟩
    exact hexamined.passed u hu hunchanged

/-- Without an enricher a sync publishes the graph that it staged, with the records that it
staged. -/
theorem commit_plain (he : e.collaborators.Plain) {head : String} {t : Staged}
    {r : Graph × EnrichmentCounts × ProjectState}
    (hrun : (e.commit state head t).run w = (.ok r, w')) :
    r = (t.graph, ⟨0, 0⟩, state.advance e.clock (some head) t.graph.toText) ∧
      w'.records.store = t.written w.records.store := by
  obtain ⟨w₁, enriched, w₂, hwrite, henrich, hkept, rfl⟩ := commit_eq_ok he.discreet hrun
  obtain ⟨rfl, rfl⟩ := enrichStaged_of_none he.unenriched henrich
  refine ⟨rfl, ?_⟩
  rw [hkept]
  exact writeRecords_eq_ok hwrite

/-- A sync of a Java repository that is completed makes of the former graph what a sync makes of
it, by differences that miss nothing. -/
theorem OfJava.sync (hjava : e.OfJava platform state w) (hsound : w.records.Sound)
    (h : before.Agrees w.records.store state.id) {r : SyncResult}
    (hrun : (e.sync state).run w = (.ok r, w')) (hcompleted : r.status = .completed)
    {old : FileTree} (hmisses : e.MissesNothing platform state old (held state w)) :
    ∃ g diff, w'.registry.get? state.id = some g ∧
      diff.MissesNothing platform (Path.ofText state.repoPath) old w.files ∧
      before.SyncedFrom g w.files platform (Path.ofText state.repoPath) diff
        (r.plan.added ++ r.plan.updated) := by
  have he := hjava.plain
  obtain ⟨head, w₁, t, w₂, g, counts, advanced, w₃, hhead, -, hstage, hcommit, rfl, rfl⟩ :=
    sync_completed hrun hcompleted
  obtain ⟨hrecords, -⟩ := head_eq he.discreet hhead
  obtain ⟨hfiles, hvanishing⟩ :=
    Prod.mk.inj (((he.still e.versionControl rfl).head _).eq hhead)
  change w₁.records = w.records at hrecords
  change w₁.files = w.files at hfiles
  have hdiffs := hmisses head w₁
  have hjava₁ : e.OfJava platform state w₁ :=
    ⟨he, hfiles ▸ hjava.legible, hvanishing.trans hjava.lasting, hfiles ▸ hjava.java⟩
  rw [← hrecords] at hsound h
  rw [← hfiles]
  obtain ⟨hfits, -, -⟩ := stage_eq_ok he.discreet hstage
  obtain ⟨hexamined, w₄, hdiff⟩ := hjava₁.examined hstage
  obtain ⟨hresult, -⟩ := commit_plain he hcommit
  cases hresult
  refine ⟨t.graph, t.diff, (Registry.get?_put ..).trans (if_pos rfl), ?_,
    hfits.syncedFrom hsound h hexamined⟩
  rw [hfiles]
  exact hdiffs t.diff w₄ hhead hdiff

end SyncEngine

end CodeAtlas
