import CodeAtlas.Proofs.Agreement.History
import CodeAtlas.Proofs.Links.Afresh
import CodeAtlas.Proofs.Links.Releases

/-!
# Links throughout histories

A Java repository is analyzed and then synced whenever its files have changed, while runs of
other projects come in between and some runs fail. This file compares the links of the graph that
is published then with those that an analysis would publish.
-/

namespace CodeAtlas

/-! ## Graphs of fresh analyses -/

/-- Where there is nobody to ask, there is nothing in the way. -/
theorem Collaborators.Plain.of_none {σ : Type} (clock : String) :
    (⟨none, none, none, clock⟩ : Collaborators σ).Plain where
  discreet :=
    { versionControl := fun v hv => by cases hv
      enricher := fun e he => by cases he
      persist := fun save hsave => by cases hsave }
  still v hv := by cases hv
  unenriched := rfl

/-- The graphs that analyses publish of a Java repository with certain files, whoever runs them and
whatever is stored. -/
inductive Graph.IsFresh (t : FileTree) (platform : Platform) (repository : Path) :
    Graph → Prop where
  | of_run {σ : Type} {c : Collaborators σ} {state : ProjectState} {given : Option Examiner}
      {tools : Tooling} {w w' : Workspace σ} {a : FreshAnalysis} (hfiles : w.files = t)
      (hjava : FreshAnalysis.OfJava c platform repository state given tools w)
      (hrun : (FreshAnalysis.runWith c repository state given tools).run w = (.ok a, w')) :
      IsFresh t platform repository a.graph

variable {t : FileTree} {platform : Platform} {repository : Path} {g : Graph}

theorem Graph.IsFresh.linkedFrom (h : Graph.IsFresh t platform repository g) :
    g.LinkedFrom t platform repository := by
  cases h with
  | of_run hfiles hjava hrun =>
    rw [← hfiles]
    exact hjava.linkedFrom hrun

/-- A repository that can be surveyed and read can be analyzed afresh. -/
theorem Graph.exists_isFresh (hlegible : t.Legible platform repository)
    (hsurveyable : t.Surveyable platform repository) :
    ∃ g, Graph.IsFresh t platform repository g := by
  let w : Workspace Unit :=
    { files := t, vanishing := [], records := .ofStore .empty, registry := .empty,
      examiner := ⟨.empty, none⟩, syncing := [], collaborators := () }
  have hfree : w.records.Unrefused := rfl
  obtain ⟨a, w', hrun⟩ := FreshAnalysis.exists_runWith (w := w) hsurveyable hfree
    (e := ⟨.java, platform, []⟩) ⟨rfl, rfl⟩ "now" (.fresh "p" "p" "/" none) ⟨platform, []⟩
  have hjava : FreshAnalysis.OfJava (⟨none, none, none, "now"⟩ : Collaborators Unit) platform
      repository
      (.fresh "p" "p" "/" none) (some ⟨.java, platform, []⟩) ⟨platform, []⟩ w :=
    ⟨.of_none "now", hlegible, fun x hx => by cases hx; exact ⟨rfl, rfl⟩⟩
  exact ⟨a.graph, .of_run rfl hjava hrun⟩

/-! ## Histories of one project -/

namespace Ledger

/-- The ledgers to which an analysis of a Java repository and the syncs after it lead, with the
releases that they published, newest first. No extraction fails and no enricher is asked, and the
differences that a sync gets miss nothing between the files of the last release and those that
are there. Meanwhile anything may happen that publishes nothing else for the project. -/
inductive Lineage (p : String) (platform : Platform) (repository : Path) :
    Ledger → List Release → Prop where
  | analysis {σ : Type} {l : Ledger} {c : Collaborators σ} {state : ProjectState}
      {given : Option Examiner} {tools : Tooling} {w w' : Workspace σ} {a : FreshAnalysis}
      (hl : l.Undisturbed) (hp : state.id = p) (hw : w.records = l.records)
      (hjava : FreshAnalysis.OfJava c platform repository state given tools w)
      (hrun : (FreshAnalysis.runWith c repository state given tools).run w = (.ok a, w')) :
      Lineage p platform repository (l.afterAnalysis p w'.records (.ok a))
        [⟨w.files, a.graph, a.graph.identifiers⟩]
  | sync {σ : Type} {l : Ledger} {latest : Release} {older : List Release} {e : SyncEngine σ}
      {state : ProjectState} {w w' : Workspace σ} {r : SyncResult} {g : Graph}
      (hl : Lineage p platform repository l (latest :: older)) (hp : state.id = p)
      (hrepository : Path.ofText state.repoPath = repository) (hw : w.records = l.records)
      (hjava : e.OfJava platform state w)
      (hmisses : e.MissesNothing platform state latest.files (SyncEngine.held state w))
      (hrun : (e.sync state).run w = (.ok r, w')) (hcompleted : r.status = .completed)
      (hg : w'.registry.get? p = some g) :
      Lineage p platform repository (l.afterSync p w'.records r (w'.registry.get? p))
        (⟨w.files, g, r.plan.added ++ r.plan.updated⟩ :: latest :: older)
  | meanwhile {l l' : Ledger} {rs : List Release} (hl : Lineage p platform repository l rs)
      (hstep : Step l l') (hkept : l'.published p = l.published p) :
      Lineage p platform repository l' rs

variable {p : String} {l : Ledger} {rs : List Release}

/-- Such a history is one of undisturbed runs, the newest release is what is published, and the
releases form a chain. -/
theorem Lineage.chain (h : l.Lineage p platform repository rs) :
    l.Undisturbed ∧ l.published p = rs.head?.map (·.graph) ∧
      Release.Chain platform repository rs := by
  induction h with
  | @analysis σ l c state given tools w w' a hl hp hw hjava hrun =>
    subst hp
    refine ⟨hl.step (.analysis hjava.plain.discreet repository state given tools hw hrun),
      if_pos rfl, .fresh hjava.legible (hjava.linkedFrom hrun) rfl⟩
  | @sync σ l latest older e state w w' r g hl hp hrepository hw hjava hmisses hrun hcompleted hg
      ih =>
    subst hp hrepository
    obtain ⟨hundisturbed, hpublished, hchain⟩ := ih
    have hsound : w.records.Sound := hw ▸ hundisturbed.sound.1
    have hagrees : latest.graph.Agrees w.records.store state.id := by
      have hsettled := hundisturbed.settled state.id
      unfold graphOf at hsettled
      rw [hpublished] at hsettled
      rw [hw]
      exact hsettled
    obtain ⟨g', diff, hg', hmissed, hsynced⟩ :=
      hjava.sync hsound hagrees hrun hcompleted hmisses
    obtain rfl : g' = g := Option.some.inj (hg'.symm.trans hg)
    refine ⟨hundisturbed.step (.sync hjava.plain.discreet state hw hrun), ?_,
      .sync hchain hjava.legible hmissed hsynced⟩
    unfold afterSync
    rw [if_pos hcompleted, hg]
    exact if_pos rfl
  | meanwhile hl hstep hkept ih =>
    obtain ⟨hundisturbed, hpublished, hchain⟩ := ih
    exact ⟨hundisturbed.step hstep, hkept.trans hpublished, hchain⟩

/-- Links of synced graphs. After an analysis and any syncs, every node of the published graph has
the links that an analysis of the files would have given it when a run last examined it, less
the ones to units that have not been there all the time since then; emptied methods are dropped,
and the other links keep their positions. That is what an analysis of the files as they are now
would give it, if since then the node's file has been in its place and the same ones of the units
that its parameter types could mean have been there. All these analyses are possible. -/
theorem Lineage.links_of_published {latest : Release} {older : List Release}
    (h : l.Lineage p platform repository (latest :: older)) :
    l.published p = some latest.graph ∧
      (∀ s ∈ latest :: older, ∃ fresh, Graph.IsFresh s.files platform repository fresh) ∧
      ∀ id, latest.graph.contains id = true →
        ∃ r u, Release.lastExamining? id (latest :: older) = some r ∧
          u ∈ r.files.javaUnits platform repository ∧ u.identifier = id ∧
          (∀ fresh, Graph.IsFresh r.files platform repository fresh →
            latest.graph.linksOf id =
              Graph.keepLinks (Release.persists (Release.since id (latest :: older)))
                (fresh.linksOf id)) ∧
          ((∀ s ∈ Release.since id (latest :: older),
            Release.SameSetting platform repository u r s) →
            ∀ fresh, Graph.IsFresh latest.files platform repository fresh →
              latest.graph.linksOf id = fresh.linksOf id) := by
  obtain ⟨-, hpublished, hchain⟩ := h.chain
  refine ⟨hpublished, fun s hs => ?_, fun id hid => ?_⟩
  · have hfaithful := hchain.faithful s hs
    exact Graph.exists_isFresh hfaithful.legible hfaithful.surveyable
  · obtain ⟨r, -, hlast, u, hu, rfl, hlinks⟩ := hchain.links hid
    refine ⟨r, u, hlast, hu, rfl, fun fresh hfresh => ?_, fun hsame fresh hfresh => ?_⟩
    · rw [hlinks, hfresh.linkedFrom.links u hu]
    · obtain ⟨hnow, hunchanged⟩ := hchain.links_of_sameSetting hlast hu hsame
      rw [hunchanged, hfresh.linkedFrom.links u hnow]

end Ledger

/-! ## Two commits -/

namespace Sample

/-- The path of the sample repository. -/
def root : Path := Path.ofText "/"

/-- The changes of one of the two files. -/
def changesAt (head : String) : Diff := ⟨head, ["A.java"], [], false⟩

/-- Version control at a commit that changes this file. -/
def commitAt (head : String) : VersionControl Unit :=
  ⟨fun _ => pure head, fun _ _ new => pure (changesAt new)⟩

/-- Nobody but version control at the first commit. -/
def keeper : Collaborators Unit := ⟨some (commitAt "c1"), none, none, "now"⟩

/-- Syncs that bring a project to the second commit. -/
def follower : SyncEngine Unit := ⟨commitAt "c2", none, none, "now", tools⟩

/-- An analysis of some files at the first commit. -/
def analyzedAt (files : List (List String × FileNode)) : Outcome FreshAnalysis × Workspace Unit :=
  (FreshAnalysis.runWith keeper root project none tools).run (workspace files)

/-- A workspace with the files of another commit. -/
def pulled (w : Workspace Unit) (files : List (List String × FileNode)) : Workspace Unit :=
  { w with files := (workspace files).files, vanishing := [] }

theorem commitAt_discreet (head : String) : (commitAt head).Discreet :=
  ⟨fun _ => Run.discreet_pure _, fun _ _ _ => Run.discreet_pure _⟩

theorem commitAt_still (head : String) : (commitAt head).Still :=
  ⟨fun _ => Fallible.Keeps.pure _, fun _ _ _ => Fallible.Keeps.pure _⟩

theorem plain_of_commitAt (head : String) :
    (⟨some (commitAt head), none, none, "now"⟩ : Collaborators Unit).Plain where
  discreet :=
    { versionControl := fun v hv => Option.some.inj hv ▸ commitAt_discreet head
      enricher := fun e he => by cases he
      persist := fun save hsave => by cases hsave }
  still v hv := Option.some.inj hv ▸ commitAt_still head
  unenriched := rfl

theorem ofJava_analysis {files : List (List String × FileNode)}
    (h : (workspace files).files.Legible .standard root) :
    FreshAnalysis.OfJava keeper .standard root project none tools (workspace files) where
  plain := plain_of_commitAt "c1"
  legible := h
  java x hx := by
    have hchosen : ((FreshAnalysis.chooseExaminer none root project tools : Run Unit Examiner).run
        (workspace files)).1 = .ok ⟨.java, tools⟩ := rfl
    rw [hchosen] at hx
    obtain rfl := Except.ok.inj hx
    exact ⟨rfl, rfl⟩

/-- An analysis of some files and a sync after one of them may have changed make a history. -/
theorem lineage {old new : List (List String × FileNode)}
    (hold : (workspace old).files.Legible .standard root)
    (hnew : (workspace new).files.Legible .standard root)
    (hmisses : (changesAt "c2").MissesNothing .standard root (workspace old).files
      (workspace new).files)
    {a : FreshAnalysis} {w : Workspace Unit} (ha : analyzedAt old = (.ok a, w))
    {state : ProjectState} (hproject : state.id = project.id) (hpath : state.repoPath = "/")
    (hlanguage : state.language = some "java") {r : SyncResult} {w' : Workspace Unit}
    (hr : (follower.sync state).run (pulled w new) = (.ok r, w'))
    (hcompleted : r.status = .completed) {g : Graph}
    (hg : w'.registry.get? project.id = some g) :
    ∃ l : Ledger, l.Lineage project.id .standard root
      [⟨(workspace new).files, g, r.plan.added ++ r.plan.updated⟩,
        ⟨(workspace old).files, a.graph, a.graph.identifiers⟩] := by
  have hfirst := Ledger.Lineage.analysis .start rfl rfl (ofJava_analysis hold) ha
  have hrepository : Path.ofText state.repoPath = root := congrArg Path.ofText hpath
  have hjava : follower.OfJava .standard state (pulled w new) := by
    refine ⟨plain_of_commitAt "c2", hrepository ▸ hnew, rfl, fun x hx => ?_⟩
    rw [hlanguage] at hx
    cases hx
    exact ⟨rfl, rfl⟩
  have hrecords : (pulled w new).records =
      (Ledger.start.afterAnalysis project.id w.records (.ok a)).records := rfl
  have hchanges : follower.MissesNothing .standard state (workspace old).files
      (SyncEngine.held state (pulled w new)) := by
    intro head w₁ diff w₂ hhead hdiff
    cases hhead
    cases hdiff
    rw [hrepository]
    exact hmisses
  have hlater := hfirst.sync hproject hrepository hrecords hjava hchanges hr hcompleted hg
  exact ⟨_, hlater⟩

/-- What such a history comes to: the units that the sync examined and the links of the class with
the method. -/
def outcomeOf (old new : List (List String × FileNode)) :
    Option (List String × List (String × List ParameterLink)) :=
  match analyzedAt old with
  | (.ok a, w) =>
    let state := a.summary.state
    match (follower.sync state).run (pulled w new) with
    | (.ok r, w') =>
      if state.id = project.id ∧ state.repoPath = "/" ∧ state.language = some "java" ∧
          r.status = .completed then
        (w'.registry.get? project.id).map fun g =>
          (r.plan.added ++ r.plan.updated, (g.linksOf "B").toList)
      else none
    | (.error _, _) => none
  | (.error _, _) => none

theorem exists_lineage {old new : List (List String × FileNode)}
    (hold : (workspace old).files.Legible .standard root)
    (hnew : (workspace new).files.Legible .standard root)
    (hmisses : (changesAt "c2").MissesNothing .standard root (workspace old).files
      (workspace new).files) {examined : List String}
    {links : List (String × List ParameterLink)}
    (h : outcomeOf old new = some (examined, links)) :
    ∃ (l : Ledger) (latest before : Release), l.Lineage project.id .standard root [latest, before] ∧
      latest.files = (workspace new).files ∧ before.files = (workspace old).files ∧
      latest.examined = examined ∧ (latest.graph.linksOf "B").toList = links := by
  unfold outcomeOf at h
  split at h
  · next a w ha =>
    dsimp only at h
    split at h
    · next r w' hr =>
      split at h
      · next hstate =>
        obtain ⟨hproject, hpath, hlanguage, hcompleted⟩ := hstate
        obtain ⟨g, hg, heq⟩ := Option.map_eq_some_iff.1 h
        obtain ⟨l, hl⟩ := lineage hold hnew hmisses ha hproject hpath hlanguage hr hcompleted hg
        cases heq
        exact ⟨l, _, _, hl, rfl, rfl, rfl, rfl⟩
      · cases h
    · cases h
  · cases h

/-- The unit of the class with the method. -/
def userUnit : SourceUnit := ⟨⟨true, ["B.java"]⟩, "B"⟩

/-- Files that are not listed as changed miss nothing if only the other file is of another
commit. -/
theorem missesNothing {old new : FileTree}
    (h : ∀ u ∈ old.javaUnits .standard root, ∀ v ∈ new.javaUnits .standard root,
      u.relativePath old root = .ok "A.java" ∨
        u.relativePath old root ≠ v.relativePath new root ∨ u = userUnit ∧ v = userUnit)
    (hread : SourceFile.read new userUnit.path = SourceFile.read old userUnit.path) :
    (changesAt "c2").MissesNothing .standard root old new := by
  intro _ u hu v hv file hold hnew hunlisted f g hf hg
  rcases h u hu v hv with hchanged | hapart | ⟨rfl, rfl⟩
  · rw [hold] at hchanged
    rw [Except.ok.inj hchanged] at hunlisted
    exact absurd (List.mem_singleton_self _) hunlisted
  · exact absurd (hold.trans hnew.symm) hapart
  · rw [hread, hf] at hg
    obtain rfl := Except.ok.inj hg
    exact ⟨rfl, rfl⟩

end Sample

namespace Ledger

open Sample

/-- A class is analyzed before the class of its method's parameter is there. The sync that follows
upon the addition of that class passes over the first one, whose method is not linked then; an
analysis would link it. -/
theorem Lineage.links_not_fresh_of_added :
    ∃ (l : Ledger) (latest before : Release) (fresh : Graph),
      l.Lineage project.id .standard root [latest, before] ∧
        before.files = (workspace [userFile]).files ∧
        latest.files = (workspace [targetFile, userFile]).files ∧
        l.published project.id = some latest.graph ∧ latest.graph.contains "B" = true ∧
        Graph.IsFresh latest.files .standard root fresh ∧ (latest.graph.linksOf "B").toList = [] ∧
        (fresh.linksOf "B").toList = [("m", [⟨"m", 0, "A"⟩])] := by
  have hold : (workspace [userFile]).files.Legible .standard root := by decide +kernel
  have hnew : (workspace [targetFile, userFile]).files.Legible .standard root := by decide +kernel
  have hmisses : (changesAt "c2").MissesNothing .standard root
      (workspace [userFile]).files (workspace [targetFile, userFile]).files :=
    missesNothing (by decide +kernel) rfl
  have houtcome : outcomeOf [userFile] [targetFile, userFile] = some (["A"], []) := by
    decide +kernel
  obtain ⟨l, latest, before, hl, hlatest, hbefore, -, hlinks⟩ :=
    exists_lineage hold hnew hmisses houtcome
  obtain ⟨-, hpublished, hchain⟩ := hl.chain
  have hunit : userUnit ∈ latest.files.javaUnits .standard root := by
    rw [hlatest]
    decide +kernel
  have hanalyzed : ((analyzedAt [targetFile, userFile]).1.toOption.map
      fun a => (a.graph.linksOf "B").toList) = some [("m", [⟨"m", 0, "A"⟩])] := by
    decide +kernel
  obtain ⟨a, w, ha, hlinked⟩ := Fallible.exists_eq_ok hanalyzed
  exact ⟨l, latest, before, a.graph, hl, hbefore, hlatest, hpublished, hchain.contains hunit,
    .of_run hlatest.symm (ofJava_analysis hnew) ha, hlinks, hlinked⟩

/-- Once both classes have been analyzed, a sync that passes over the one with the method leaves
its link as an analysis would make it. -/
theorem Lineage.links_of_published_of_sample :
    ∃ (l : Ledger) (latest before : Release) (fresh : Graph),
      l.Lineage project.id .standard root [latest, before] ∧ "B" ∉ latest.examined ∧
        l.published project.id = some latest.graph ∧
          Graph.IsFresh latest.files .standard root fresh ∧
        latest.graph.linksOf "B" = fresh.linksOf "B" ∧
        (latest.graph.linksOf "B").toList = [("m", [⟨"m", 0, "A"⟩])] := by
  have hlegible : (workspace [targetFile, userFile]).files.Legible .standard root := by
    decide +kernel
  have hmisses : (changesAt "c2").MissesNothing .standard root
      (workspace [targetFile, userFile]).files (workspace [targetFile, userFile]).files :=
    missesNothing (by decide +kernel) rfl
  have houtcome : outcomeOf [targetFile, userFile] [targetFile, userFile] =
      some (["A"], [("m", [⟨"m", 0, "A"⟩])]) := by
    decide +kernel
  obtain ⟨l, latest, before, hl, hlatest, hbefore, hexamined, hlinks⟩ :=
    exists_lineage hlegible hlegible hmisses houtcome
  obtain ⟨-, -, hchain⟩ := hl.chain
  have hunit : userUnit ∈ latest.files.javaUnits .standard root := by
    rw [hlatest]
    decide +kernel
  have hpassed : "B" ∉ latest.examined := by
    rw [hexamined]
    decide
  obtain ⟨hpublished, hpossible, hnodes⟩ := hl.links_of_published
  obtain ⟨fresh, hfresh⟩ := hpossible latest (List.mem_cons_self ..)
  obtain ⟨r, u, hlast, hu, -, -, hsame⟩ := hnodes "B" (hchain.contains hunit)
  rw [Release.lastExamining?_of_not_mem hpassed] at hlast
  obtain rfl := List.mem_singleton.1 (List.mem_of_find?_eq_some hlast)
  refine ⟨l, latest, r, fresh, hl, hpassed, hpublished, hfresh, hsame ?_ fresh hfresh, hlinks⟩
  intro s hs
  have hfiles : s.files = r.files ∧ s.Faithful .standard root := by
    have hmem := List.takeWhile_subset _ hs
    refine ⟨?_, hchain.faithful s hmem⟩
    rcases List.mem_cons.1 hmem with rfl | hmem
    · rw [hlatest, hbefore]
    · rw [List.mem_singleton.1 hmem]
  have hbefore := hchain.faithful r (List.mem_cons_of_mem _ (List.mem_singleton_self _))
  refine ⟨hfiles.1 ▸ hu, by rw [hfiles.1], fun f _ j _ => ?_⟩
  rw [Bool.eq_iff_iff, hfiles.2.contains, hbefore.contains, hfiles.1]

end Ledger

end CodeAtlas
