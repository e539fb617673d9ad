import CodeAtlas.Proofs.Links.Described
import CodeAtlas.Proofs.Run.Extraction
import CodeAtlas.Proofs.Source.Facts
import CodeAtlas.Proofs.Source.Units
import CodeAtlas.Proofs.Sync.Stage

/-!
# Links of examined nodes

Which units a Java repository has depends on its files alone. An analysis examines all of them, a
sync only the added and updated ones. This file proves that either gives every node that it
examines the links which the node's file makes, given the identifiers of the repository as it is,
and that a sync passes over a unit only if its file is not listed as changed.
-/

namespace CodeAtlas

open Fallible

/-! ## Units and their files -/

namespace FileTree

/-- The units of the Java files of a repository, on a platform. -/
def javaUnits (t : FileTree) (platform : Platform) (repository : Path) : List SourceUnit :=
  t.unitsIn platform .java repository

/-- A Java repository whose files are units of different identifiers and can all be read, so that
the extraction of none fails. -/
structure Legible (t : FileTree) (platform : Platform) (repository : Path) : Prop where
  distinct : ((t.javaUnits platform repository).map (·.identifier)).Nodup
  readable : ∀ u ∈ t.javaUnits platform repository, ∃ f, SourceFile.read t u.path = .ok f

instance (t : FileTree) (platform : Platform) (repository : Path) :
    Decidable (t.Legible platform repository) :=
  decidable_of_iff (((t.javaUnits platform repository).map (·.identifier)).Nodup ∧
      ∀ u ∈ t.javaUnits platform repository, (SourceFile.read t u.path).toBool = true) <| by
    have hread (o : Outcome SourceFile) : o.toBool = true ↔ ∃ f, o = .ok f := by
      cases o <;> simp [Except.toBool]
    constructor
    · rintro ⟨hdistinct, hreadable⟩
      exact ⟨hdistinct, fun u hu => (hread _).1 (hreadable u hu)⟩
    · rintro ⟨hdistinct, hreadable⟩
      exact ⟨hdistinct, fun u hu => (hread _).2 (hreadable u hu)⟩

/-- A Java repository whose source files can be found and all lie in it, so that it can be
surveyed. -/
structure Surveyable (t : FileTree) (platform : Platform) (repository : Path) : Prop where
  found : ∃ files, (⟨.java, platform, []⟩ : Examiner).discover (.ofFiles t) repository = .ok files
  inside : ∀ u ∈ t.javaUnits platform repository, ∃ file, u.relativePath t repository = .ok file

/-- Units of distinct identifiers are told apart by these. -/
theorem Legible.eq_of_identifier {t : FileTree} {platform : Platform} {repository : Path}
    (h : t.Legible platform repository)
    {u v : SourceUnit} (hu : u ∈ t.javaUnits platform repository)
    (hv : v ∈ t.javaUnits platform repository)
    (heq : u.identifier = v.identifier) : u = v :=
  List.inj_on_of_nodup_map h.distinct hu hv heq

end FileTree

/-! ## Surveys -/

namespace Survey

/-- A survey of a Java repository finds its units and makes them the nodes of a graph. -/
theorem ensures_take_java {e : Examiner} (he : e.Suits platform .java) (t : FileTree)
    (repository : Path) :
    Ensures (fun s => s.units = t.javaUnits platform repository ∧
      NodesAre t repository (t.javaUnits platform repository) s.graph ∧
        t.Surveyable platform repository)
      (take e t repository) := by
  refine (ensures_take_covers e t repository).mono fun s hs => ?_
  obtain ⟨root, files, hroot, hfiles, hunits⟩ := hs.found
  have hjava : s.units = t.javaUnits platform repository := by
    rw [hunits]
    exact (FileTree.unitsIn_eq he hroot hfiles).symm
  have hnodes := hs.nodes
  rw [hjava] at hnodes
  exact ⟨hjava, hnodes, ⟨files, he.discover_eq ▸ hfiles⟩, hnodes.inside⟩

end Survey

/-! ## Links that files make -/

/-- The links that a unit's file makes in a Java repository. -/
def FileTree.javaLinks (t : FileTree) (platform : Platform) (repository : Path) (u : SourceUnit) :
    Dict String (List ParameterLink) :=
  match SourceFile.read t u.path with
  | .ok f =>
    ((JavaFile.ofSource f).parameterTargets
      ((t.javaUnits platform repository).map (·.identifier))).links
  | .error _ => .empty

theorem FileTree.javaLinks_of_read {t : FileTree} {platform : Platform} {repository : Path}
    {u : SourceUnit}
    {f : SourceFile} (h : SourceFile.read t u.path = .ok f) :
    t.javaLinks platform repository u = ((JavaFile.ofSource f).parameterTargets
      ((t.javaUnits platform repository).map (·.identifier))).links := by
  unfold javaLinks
  rw [h]

variable {t : FileTree} {platform : Platform} {repository : Path}

/-- What a description of some units of a Java repository does: nothing fails, these units' nodes
have the links that their files make, and the others stay as they are. -/
theorem Graph.ensures_describe_java {e : Examiner} (he : e.Suits platform .java)
    (ht : t.Legible platform repository) {g : Graph}
    (hg : Survey.NodesAre t repository (t.javaUnits platform repository) g) (now : FileTree)
    (only : Option (List String)) :
    Ensures (fun r => r.2 = [] ∧ r.1.nodes = g.nodes ∧
        (∀ u ∈ wantedUnits (t.javaUnits platform repository) only,
          r.1.linksOf u.identifier = t.javaLinks platform repository u) ∧
        ∀ j, j ∉ (wantedUnits (t.javaUnits platform repository) only).map (·.identifier) →
          SameAt j g r.1)
      (g.describe e ⟨t, now⟩ repository (some (t.javaUnits platform repository)) only) := by
  have hwanted : (wantedUnits (t.javaUnits platform repository) only).Sublist
      (t.javaUnits platform repository) := by
    unfold wantedUnits
    split
    · exact List.filter_sublist
    · exact List.Sublist.refl _
  have hidentifiers (j : String) : g.identifiers.contains j = g.contains j := by
    rw [Bool.eq_iff_iff, List.contains_iff_mem]
    exact (Dict.contains_iff_mem_keys g.nodes j).symm
  have hunits (j : String) :
      ((t.javaUnits platform repository).map (·.identifier)).contains j = g.contains j := by
    rw [Bool.eq_iff_iff, List.contains_iff_mem]
    exact (hg.contains j).symm
  unfold describe
  refine Examining.ensures_inSession ?_
  refine (Ensures.trivial _).bind fun root _ => ?_
  refine (Examining.ensures_ofOutcome
    (P := fun units => units = t.javaUnits platform repository) fun units hunits => ?_).bind
      fun units hfound => ?_
  · exact (Except.ok.inj hunits).symm
  subst hfound
  intro st r st' hrun
  obtain ⟨h, hdescribed, hnodes, hlinks, hothers⟩ :=
    describeUnits_java he.language ⟨t, now⟩ root g.identifiers
      (ht.distinct.sublist (hwanted.map _))
      (fun u hu => ht.readable u (hwanted.subset hu))
      (fun u hu => (hg.contains _).2 (List.mem_map_of_mem (hwanted.subset hu)))
      (fun j hj => by rwa [hidentifiers] at hj) [] st
  rw [hdescribed] at hrun
  obtain rfl := Except.ok.inj (Prod.mk.inj hrun).1
  refine ⟨rfl, hnodes, fun u hu => ?_, hothers⟩
  obtain ⟨f, hf⟩ := ht.readable u (hwanted.subset hu)
  have htargets : (JavaFile.ofSource f).parameterTargets
      ((t.javaUnits platform repository).map (·.identifier)) =
        (JavaFile.ofSource f).parameterTargets g.identifiers :=
    (JavaFile.ofSource f).parameterTargets_congr fun j _ => by rw [hidentifiers, hunits]
  rw [hlinks u hu f hf, FileTree.javaLinks_of_read hf, htargets]

/-! ## Analyses -/

/-- A graph whose nodes are the units of a Java repository, linked as their files say. -/
structure Graph.LinkedFrom (g : Graph) (t : FileTree) (platform : Platform) (repository : Path) :
    Prop where
  surveyable : t.Surveyable platform repository
  contains : ∀ j, g.contains j = true ↔ j ∈ (t.javaUnits platform repository).map (·.identifier)
  links : ∀ u ∈ t.javaUnits platform repository,
    g.linksOf u.identifier = t.javaLinks platform repository u

variable {σ : Type} {w w' : Workspace σ}

/-- An analysis of a Java repository links all nodes as their files say. -/
theorem FreshAnalysis.examineAll_java {e : Examiner} (he : e.Suits platform .java)
    (hw : w.files.Legible platform repository) {r : Survey × Graph × List String}
    (hrun : (examineAll e repository : Run σ _).run w = (.ok r, w')) :
    r.2.1.LinkedFrom w.files platform repository := by
  unfold examineAll at hrun
  obtain ⟨w₀, w₁, -, hfiles, -, hrun⟩ := Run.inSession_eq_ok hrun
  rw [← hfiles] at hw ⊢
  rw [Run.run_files_bind] at hrun
  obtain ⟨survey, w₂, hsurvey, hrun⟩ := Fallible.bind_eq_ok.1 hrun
  obtain ⟨⟨g, failed⟩, w₃, hdescribed, hrun⟩ := Fallible.bind_eq_ok.1 hrun
  obtain ⟨s, hsurvey, -⟩ := Run.examine_eq_ok hsurvey
  obtain ⟨hunits, hnodes, hsurveyable⟩ :=
    Survey.ensures_take_java he w₀.files repository _ _ _ hsurvey
  obtain ⟨s', hdescribed, -⟩ := Run.examine_eq_ok hdescribed
  rw [hunits] at hdescribed
  obtain ⟨-, hkept, hlinks, -⟩ :=
    Graph.ensures_describe_java he hw hnodes w₀.files none _ _ _ hdescribed
  obtain rfl := Except.ok.inj (Prod.mk.inj hrun).1
  refine ⟨hsurveyable, fun j => ?_, hlinks⟩
  rw [Graph.contains_congr hkept]
  exact hnodes.contains j

/-! ## Syncs -/

namespace SyncEngine

/-- A draft of a sync of a Java repository: the nodes are the units; those that are added or
updated are linked as their files say, and those that are passed over have files which the
differences do not list. -/
structure Draft.Examined (d : Draft) (t : FileTree) (platform : Platform) (repository : Path)
    (diff : Diff) : Prop where
  surveyable : t.Surveyable platform repository
  contains : ∀ j,
    d.graph.contains j = true ↔ j ∈ (t.javaUnits platform repository).map (·.identifier)
  linked : ∀ u ∈ t.javaUnits platform repository,
    u.identifier ∈ d.plan.added ∨ u.identifier ∈ d.plan.updated →
      d.graph.linksOf u.identifier = t.javaLinks platform repository u
  passed : ∀ u ∈ t.javaUnits platform repository, u.identifier ∈ d.plan.unchanged →
    diff.full = false ∧ ∃ file, u.relativePath t repository = .ok file ∧ file ∉ diff.changed

/-- The added units of a Java repository are all there. -/
theorem dropVanished_java (ht : t.Legible platform repository) {g : Graph}
    (hg : Survey.NodesAre t repository (t.javaUnits platform repository) g) {plan : SyncPartition}
    (hplan : ∀ id ∈ plan.added, g.contains id = true) :
    dropVanished t
      (Dict.ofList ((t.javaUnits platform repository).map fun u => (u.identifier, u.path)))
      g plan = (g, plan) := by
  refine dropVanished_of_isFile fun id hid => ?_
  obtain ⟨u, hu, rfl⟩ := List.mem_map.1 ((hg.contains id).1 (hplan id hid))
  obtain ⟨f, hf⟩ := ht.readable u hu
  refine ⟨u.path, Dict.get?_ofList_of_mem ?_ (List.mem_map.2 ⟨u, hu, rfl⟩),
    FileTree.isFile_of_read hf⟩
  rw [List.map_map]
  exact ht.distinct

/-- A new plan passes over units only if the differences are known and do not list their
files. -/
theorem passed_of_mem_unchanged {g : Graph} (ht : t.Legible platform repository)
    (hg : Survey.NodesAre t repository (t.javaUnits platform repository) g) {stored : List String}
    {diff : Diff} {u : SourceUnit} (hu : u ∈ t.javaUnits platform repository)
    (h : u.identifier ∈ (SyncPartition.ofGraph stored g diff.changed diff.full).unchanged) :
    diff.full = false ∧ ∃ file, u.relativePath t repository = .ok file ∧ file ∉ diff.changed := by
  obtain ⟨file, hfile, hsource⟩ := hg.files ht.distinct u hu
  have hchanged : SyncPartition.isChanged g diff.changed diff.full u.identifier = false := by
    unfold SyncPartition.ofGraph at h
    simpa using (List.mem_filter.1 h).2
  unfold SyncPartition.isChanged at hchanged
  rw [hsource, Bool.or_eq_false_iff] at hchanged
  refine ⟨hchanged.1, file, hfile, fun hmem => ?_⟩
  have hlisted : diff.changed.contains file = false := hchanged.2
  rw [List.contains_iff_mem.2 hmem] at hlisted
  cases hlisted

/-- A draft of a Java repository whose files stay where they are. -/
theorem draft_java {x : Examiner} (hx : x.Suits platform .java)
    (hw : w.files.Legible platform repository)
    (hvanishing : w.vanishing = []) {project : String} {diff : Diff} {d : Draft}
    (hrun : (draft x repository project diff : Run σ Draft).run w = (.ok d, w')) :
    d.Examined w.files platform repository diff := by
  unfold draft at hrun
  obtain ⟨w₀, w₁, -, hfiles, hvanishing₀, hrun⟩ := Run.inSession_eq_ok hrun
  rw [← hfiles] at hw ⊢
  rw [← hvanishing₀] at hvanishing
  rw [Run.run_files_bind] at hrun
  obtain ⟨survey, w₂, hsurvey, hrun⟩ := Fallible.bind_eq_ok.1 hrun
  obtain ⟨s, htake, rfl⟩ := Run.examine_eq_ok hsurvey
  obtain ⟨hunits, hnodes, hsurveyable⟩ :=
    Survey.ensures_take_java hx w₀.files repository _ _ _ htake
  obtain ⟨stored, w₃, hstored, hrun⟩ := Fallible.bind_eq_ok.1 hrun
  have hfiles₃ : w₃.files = w₀.files := by
    rw [← (Prod.mk.inj hstored).2]
    dsimp only
    rw [hvanishing]
    rfl
  rw [Run.run_files_bind, hfiles₃, hunits] at hrun
  dsimp only at hrun
  generalize hrecords : Dict.ofList (stored.map fun r => (r.identifier, r)) = records at hrun
  have hplan := SyncPartition.fits_ofGraph records.keys
    (Survey.ensures_take x w₀.files repository _ _ _ htake).wellFormed.nodes_nodup
    diff.changed diff.full
  rw [dropVanished_java hw hnodes fun id hid => ((hplan.added id).1 hid).1] at hrun
  dsimp only at hrun
  obtain ⟨⟨g, failed⟩, w₄, hdescribed, hrun⟩ := Fallible.bind_eq_ok.1 hrun
  obtain ⟨s', hdescribed, -⟩ := Run.examine_eq_ok hdescribed
  obtain ⟨rfl, hkept, hlinks, -⟩ :=
    Graph.ensures_describe_java hx hw hnodes w₀.files _ _ _ _ hdescribed
  obtain rfl := Except.ok.inj (Prod.mk.inj hrun).1
  rw [demoteFailed_nil]
  refine ⟨hsurveyable, fun j => ?_, fun u hu hexamined => hlinks u ?_,
    fun u hu hunchanged => ?_⟩
  · rw [Graph.contains_congr hkept]
    exact hnodes.contains j
  · refine List.mem_filter.2 ⟨hu, ?_⟩
    rw [List.contains_iff_mem, List.mem_append]
    exact hexamined.symm
  · exact passed_of_mem_unchanged hw hnodes hu hunchanged

end SyncEngine

end CodeAtlas
